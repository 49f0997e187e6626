import Mathlib.Data.List.TakeDrop

/-!
This module contains how decimal numbers are read back from a text: the digits in front of a character that is
no digit, and the number they stand for.
-/

namespace Text

theorem digitChar_toNat_sub {c : Char} (h : c.isDigit) : Nat.digitChar (c.toNat - 48) = c := by
  simp only [Char.isDigit, ge_iff_le, Bool.and_eq_true, decide_eq_true_eq] at h
  have hlow : 48 ≤ c.toNat := h.1
  have hhigh : c.toNat ≤ 57 := h.2
  apply Char.toNat_inj.mp
  rw [Nat.toNat_digitChar_of_lt_ten]
  . omega
  . omega

theorem toNat_sub_lt {c : Char} (h : c.isDigit) : c.toNat - 48 < 10 := by
  simp only [Char.isDigit, ge_iff_le, Bool.and_eq_true, decide_eq_true_eq] at h
  have hhigh : c.toNat ≤ 57 := h.2
  omega

theorem toNat_sub_pos {c : Char} (h : c.isDigit) (hzero : c ≠ '0') : 0 < c.toNat - 48 := by
  simp only [Char.isDigit, ge_iff_le, Bool.and_eq_true, decide_eq_true_eq] at h
  have hlow : 48 ≤ c.toNat := h.1
  have hne : c.toNat ≠ 48 := fun heq => hzero (Char.toNat_inj.mp heq)
  omega

theorem toDigits_append_digits {digits : List Char} (hdigits : ∀ c ∈ digits, c.isDigit) {n : Nat}
    (hn : 0 < n) : Nat.toDigits 10 n ++ digits = Nat.toDigits 10 (Nat.ofDigitChars 10 digits n) := by
  induction digits generalizing n with
  | nil => simp
  | cons c digits ih =>
    have hc : c.isDigit := hdigits c List.mem_cons_self
    have hnext := Nat.toDigits_append_toDigits (b := 10) (by omega) hn (toNat_sub_lt hc)
    rw [Nat.toDigits_of_lt_base (toNat_sub_lt hc), digitChar_toNat_sub hc] at hnext
    calc
      Nat.toDigits 10 n ++ c :: digits = (Nat.toDigits 10 n ++ [c]) ++ digits := by simp
      _ = Nat.toDigits 10 (10 * n + (c.toNat - 48)) ++ digits := by rw [hnext]
      _ = Nat.toDigits 10 (Nat.ofDigitChars 10 digits (10 * n + (c.toNat - 48))) := by
        apply ih
        . exact fun d hd => hdigits d (List.mem_cons_of_mem c hd)
        . omega
      _ = Nat.toDigits 10 (Nat.ofDigitChars 10 (c :: digits) n) := by
        rw [Nat.ofDigitChars_cons]
        rfl

theorem exists_zeros_append {digits : List Char} (hdigits : ∀ c ∈ digits, c.isDigit)
    (hpos : 0 < Nat.ofDigitChars 10 digits 0) :
    ∃ zeros, (∀ c ∈ zeros, c = '0') ∧
      digits = zeros ++ Nat.toDigits 10 (Nat.ofDigitChars 10 digits 0) := by
  induction digits with
  | nil => simp at hpos
  | cons c digits ih =>
    have hc : c.isDigit := hdigits c List.mem_cons_self
    have hrest : ∀ d ∈ digits, d.isDigit := fun d hd => hdigits d (List.mem_cons_of_mem c hd)
    by_cases hzero : c = '0'
    . subst hzero
      rw [Nat.ofDigitChars_cons] at hpos ⊢
      obtain ⟨zeros, hzeros, heq⟩ := ih hrest hpos
      refine ⟨'0' :: zeros, ?_, ?_⟩
      . intro d hd
        rcases List.mem_cons.mp hd with rfl | hd
        . rfl
        . exact hzeros d hd
      . exact congrArg ('0' :: ·) heq
    . refine ⟨[], by simp, ?_⟩
      have happend := toDigits_append_digits hrest (toNat_sub_pos hc hzero)
      rw [Nat.toDigits_of_lt_base (toNat_sub_lt hc), digitChar_toNat_sub hc] at happend
      rw [Nat.ofDigitChars_cons, Nat.mul_zero, Nat.zero_add]
      exact happend

theorem ofDigitChars_zeros_append {zeros : List Char} (h : ∀ c ∈ zeros, c = '0') (digits : List Char) :
    Nat.ofDigitChars 10 (zeros ++ digits) 0 = Nat.ofDigitChars 10 digits 0 := by
  rw [List.eq_replicate_of_mem h, Nat.ofDigitChars_append, Nat.ofDigitChars_replicate_zero, Nat.mul_zero]

section takeWhile

variable {α : Type} {p : α → Bool}

theorem takeWhile_append_stop {l r : List α} (hl : ∀ a ∈ l, p a) (hr : ∀ a ∈ r.head?, ¬p a) :
    (l ++ r).takeWhile p = l := by
  rw [List.takeWhile_append_of_pos hl]
  cases r with
  | nil => simp
  | cons a r =>
    rw [List.takeWhile_cons_of_neg (hr a rfl), List.append_nil]

theorem dropWhile_append_stop {l r : List α} (hl : ∀ a ∈ l, p a) (hr : ∀ a ∈ r.head?, ¬p a) :
    (l ++ r).dropWhile p = r := by
  rw [List.dropWhile_append_of_pos hl]
  cases r with
  | nil => rfl
  | cons a r => rw [List.dropWhile_cons_of_neg (hr a rfl)]

theorem takeWhile_append_cons {a : α} (ha : ¬p a) (l r : List α) :
    (l ++ a :: r).takeWhile p = l.takeWhile p := by
  induction l with
  | nil => exact List.takeWhile_cons_of_neg ha
  | cons b l ih =>
    simp only [List.cons_append, List.takeWhile_cons, ih]

theorem dropWhile_append_cons {a : α} (ha : ¬p a) (l r : List α) :
    (l ++ a :: r).dropWhile p = l.dropWhile p ++ a :: r := by
  induction l with
  | nil => exact List.dropWhile_cons_of_neg ha
  | cons b l ih =>
    simp only [List.cons_append, List.dropWhile_cons, ih]
    split <;> rfl

end takeWhile

theorem infix_append_cons_iff {α : Type} {c : α} {p l r : List α} (hc : c ∉ p) :
    p <:+: l ++ c :: r ↔ p <:+: l ∨ p <:+: r := by
  constructor
  . rintro ⟨s, t, h⟩
    rw [List.append_assoc, List.append_eq_append_iff] at h
    rcases h with ⟨l', rfl, h⟩ | ⟨s', rfl, h⟩
    . rw [List.append_eq_append_iff] at h
      rcases h with ⟨x, rfl, -⟩ | ⟨x, rfl, h⟩
      . exact .inl (List.infix_append' s p x)
      . cases x with
        | nil => exact .inl ⟨s, [], by simp⟩
        | cons d x =>
          obtain ⟨rfl, -⟩ := List.cons.inj h
          exact absurd (List.mem_append_right l' List.mem_cons_self) hc
    . cases s' with
      | nil =>
        cases p with
        | nil => exact .inl (List.nil_infix)
        | cons d p =>
          obtain ⟨rfl, -⟩ := List.cons.inj h
          exact absurd List.mem_cons_self hc
      | cons d s' =>
        obtain ⟨-, rfl⟩ := List.cons.inj h
        exact .inr (List.infix_append' s' p t)
  . rintro (⟨s, t, rfl⟩ | ⟨s, t, rfl⟩)
    . exact ⟨s, t ++ c :: r, by simp⟩
    . exact ⟨l ++ c :: s, t, by simp⟩

theorem idxOf?_append_cons {α : Type} [DecidableEq α] {a : α} {l : List α} (h : a ∉ l) (r : List α) :
    (l ++ a :: r).idxOf? a = some l.length := by
  induction l with
  | nil => simp [List.idxOf?_cons]
  | cons b l ih =>
    rw [List.mem_cons, not_or] at h
    rw [List.cons_append, List.idxOf?_cons, if_neg (by simpa using Ne.symm h.1), ih h.2]
    rfl

end Text
