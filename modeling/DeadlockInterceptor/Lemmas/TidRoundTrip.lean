import DeadlockInterceptor.Lemmas.Identifiers
import DeadlockInterceptor.Text.Digits
import Mathlib.Data.List.TakeWhile

/-!
This module contains for which thread names the tid comes back out of an identifier. The search for the tid
starts at the first `[` of the identifier, so a name with a bracket of its own is read instead of the tid.
-/

namespace DeadlockInterceptor

def stoiDigits (neg : Bool) (s : Str) : Except Exn Int :=
  let digits := s.takeWhile Char.isDigit
  if digits = [] then
    .error .invalidArgument
  else
    let n : Int := Nat.ofDigitChars 10 digits 0
    let n := if neg then -n else n
    if -2147483648 ≤ n ∧ n ≤ 2147483647 then .ok n else .error .outOfRange

section stoi

variable {s rest : Str}

theorem stoiDigits_congr {s' : Str} (neg : Bool)
    (h : s.takeWhile Char.isDigit = s'.takeWhile Char.isDigit) : stoiDigits neg s = stoiDigits neg s' := by
  simp only [stoiDigits, h]

theorem stoi_of_minus (h : s.dropWhile isSpace = '-' :: rest) : stoi s = stoiDigits true rest := by
  simp only [stoi, h]
  rfl

theorem stoi_of_plus (h : s.dropWhile isSpace = '+' :: rest) : stoi s = stoiDigits false rest := by
  simp only [stoi, h]
  rfl

theorem stoi_of_unsigned (hminus : '-' ∉ (s.dropWhile isSpace).head?)
    (hplus : '+' ∉ (s.dropWhile isSpace).head?) : stoi s = stoiDigits false (s.dropWhile isSpace) := by
  simp only [stoi]
  split
  . next h =>
    rw [h] at hminus
    exact absurd rfl hminus
  . next h =>
    rw [h] at hplus
    exact absurd rfl hplus
  . rfl

structure EndsNumber (c : Char) : Prop where
  space : ¬isSpace c
  digit : ¬c.isDigit
  minus : c ≠ '-'
  plus : c ≠ '+'

theorem stoi_append_cons {c : Char} (hc : EndsNumber c) (l r : Str) : stoi (l ++ c :: r) = stoi l := by
  have hdrop := Text.dropWhile_append_cons hc.space l r
  have hend : ∀ neg u, stoiDigits neg (u ++ c :: r) = stoiDigits neg u := by
    intro neg u
    apply stoiDigits_congr
    exact Text.takeWhile_append_cons hc.digit u r
  cases hl : l.dropWhile isSpace with
  | nil =>
    rw [hl] at hdrop
    rw [stoi_of_unsigned (s := l), stoi_of_unsigned, hdrop, hl, hend]
    . rw [hdrop]
      simpa using hc.minus
    . rw [hdrop]
      simpa using hc.plus
    . simp [hl]
    . simp [hl]
  | cons d u =>
    rw [hl, List.cons_append] at hdrop
    by_cases hminus : d = '-'
    . subst hminus
      rw [stoi_of_minus hl, stoi_of_minus hdrop, hend]
    . by_cases hplus : d = '+'
      . subst hplus
        rw [stoi_of_plus hl, stoi_of_plus hdrop, hend]
      . rw [stoi_of_unsigned (s := l), stoi_of_unsigned, hdrop, hl, ← List.cons_append, hend]
        . simpa [hdrop] using hminus
        . simpa [hdrop] using hplus
        . simpa [hl] using hminus
        . simpa [hl] using hplus

end stoi

/--
The text starts with the decimal tid and no further digit, up to white space, a plus sign and zeros in front.
-/
def StartsWithTid (text : Str) (tid : Pid) : Prop :=
  ∃ spaces sign zeros rest : Str, (∀ c ∈ spaces, isSpace c) ∧ (sign = [] ∨ sign = ['+']) ∧
    (∀ c ∈ zeros, c = '0') ∧ (∀ c ∈ rest.head?, ¬c.isDigit) ∧
    text = spaces ++ (sign ++ (zeros ++ (toStr tid ++ rest)))

section StartsWithTid

variable {tid : Int}

theorem toStr_of_pos (hpos : 0 < tid) : toStr tid = Nat.toDigits 10 tid.natAbs := by
  simp only [toStr]
  rw [if_neg]
  omega

theorem isDigit_of_mem_toStr (hpos : 0 < tid) {c : Char} (hc : c ∈ toStr tid) : c.isDigit := by
  rw [toStr_of_pos hpos] at hc
  exact Nat.isDigit_of_mem_toDigits (by omega) (by omega) hc

theorem isDigit_of_mem_zeros {zeros : Str} (hzeros : ∀ c ∈ zeros, c = '0') (hpos : 0 < tid) {c : Char}
    (hc : c ∈ zeros ++ toStr tid) : c.isDigit := by
  rcases List.mem_append.mp hc with hc | hc
  . rw [hzeros c hc]
    decide
  . exact isDigit_of_mem_toStr hpos hc

theorem stoiDigits_eq_ok_iff (hpos : 0 < tid) (hfit : tid ≤ 2147483647) (text : Str) :
    stoiDigits false text = .ok tid ↔
      ∃ zeros rest : Str, (∀ c ∈ zeros, c = '0') ∧ (∀ c ∈ rest.head?, ¬c.isDigit) ∧
        text = zeros ++ (toStr tid ++ rest) := by
  constructor
  . intro h
    simp only [stoiDigits, Bool.false_eq_true, ↓reduceIte] at h
    split at h
    . cases h
    . split at h
      . have hvalue : (Nat.ofDigitChars 10 (text.takeWhile Char.isDigit) 0 : Int) = tid := Except.ok.inj h
        have hvaluepos : 0 < Nat.ofDigitChars 10 (text.takeWhile Char.isDigit) 0 := by omega
        obtain ⟨zeros, hzeros, hdigits⟩ := Text.exists_zeros_append
          (fun c hc => List.mem_takeWhile_imp hc) hvaluepos
        refine ⟨zeros, text.dropWhile Char.isDigit, hzeros, ?_, ?_⟩
        . intro c hc
          have hhead := List.head?_dropWhile_not Char.isDigit text
          rw [Option.mem_def.mp hc] at hhead
          simpa using hhead
        . rw [toStr_of_pos hpos, ← hvalue, Int.natAbs_natCast, ← List.append_assoc, ← hdigits,
            List.takeWhile_append_dropWhile]
      . cases h
  . rintro ⟨zeros, rest, hzeros, hrest, rfl⟩
    have hrun : (zeros ++ (toStr tid ++ rest)).takeWhile Char.isDigit = zeros ++ toStr tid := by
      rw [← List.append_assoc]
      exact Text.takeWhile_append_stop (fun c hc => isDigit_of_mem_zeros hzeros hpos hc) hrest
    have hne : zeros ++ toStr tid ≠ [] := by
      rw [toStr_of_pos hpos]
      exact fun h => Nat.toDigits_ne_nil (List.append_eq_nil_iff.mp h).2
    have hvalue : (Nat.ofDigitChars 10 (zeros ++ toStr tid) 0 : Int) = tid := by
      rw [Text.ofDigitChars_zeros_append hzeros, toStr_of_pos hpos, Nat.ofDigitChars_ten_toDigits]
      omega
    simp only [stoiDigits, Bool.false_eq_true, ↓reduceIte, hrun, hvalue]
    rw [if_neg hne, if_pos]
    omega

theorem stoiDigits_true_ne_ok (hpos : 0 < tid) (text : Str) : stoiDigits true text ≠ .ok tid := by
  intro h
  simp only [stoiDigits, ↓reduceIte] at h
  split at h
  . cases h
  . split at h
    . have hvalue := Except.ok.inj h
      omega
    . cases h

theorem stoi_eq_ok_iff (hpos : 0 < tid) (hfit : tid ≤ 2147483647) (text : Str) :
    stoi text = .ok tid ↔ StartsWithTid text tid := by
  constructor
  . intro h
    have hspaces : ∀ c ∈ text.takeWhile isSpace, isSpace c := fun c hc => List.mem_takeWhile_imp hc
    have hsplit := List.takeWhile_append_dropWhile (p := isSpace) (l := text)
    by_cases hminus : '-' ∈ (text.dropWhile isSpace).head?
    . obtain ⟨u, hu⟩ := List.head?_eq_some_iff.mp (Option.mem_def.mp hminus)
      rw [stoi_of_minus hu] at h
      exact absurd h (stoiDigits_true_ne_ok hpos u)
    . by_cases hplus : '+' ∈ (text.dropWhile isSpace).head?
      . obtain ⟨u, hu⟩ := List.head?_eq_some_iff.mp (Option.mem_def.mp hplus)
        rw [stoi_of_plus hu, stoiDigits_eq_ok_iff hpos hfit] at h
        obtain ⟨zeros, rest, hzeros, hrest, rfl⟩ := h
        refine ⟨_, ['+'], zeros, rest, hspaces, .inr rfl, hzeros, hrest, ?_⟩
        rw [hu] at hsplit
        exact hsplit.symm
      . rw [stoi_of_unsigned hminus hplus, stoiDigits_eq_ok_iff hpos hfit] at h
        obtain ⟨zeros, rest, hzeros, hrest, hu⟩ := h
        refine ⟨_, [], zeros, rest, hspaces, .inl rfl, hzeros, hrest, ?_⟩
        rw [List.nil_append, ← hu, hsplit]
  . rintro ⟨spaces, sign, zeros, rest, hspaces, hsign, hzeros, hrest, rfl⟩
    -- the first character behind the sign is a digit
    have hhead : ∀ c ∈ (zeros ++ (toStr tid ++ rest)).head?, c.isDigit := by
      intro c hc
      rw [← List.append_assoc, List.head?_append_of_ne_nil] at hc
      . exact isDigit_of_mem_zeros hzeros hpos (List.mem_of_mem_head? hc)
      . rw [toStr_of_pos hpos]
        exact fun h => Nat.toDigits_ne_nil (List.append_eq_nil_iff.mp h).2
    have hnospace : ∀ c : Char, c.isDigit → ¬isSpace c := by
      intro c hc hspace
      simp only [isSpace, Bool.or_eq_true, decide_eq_true_eq] at hspace
      rcases hspace with ((((rfl | rfl) | rfl) | rfl) | rfl) | rfl <;> revert hc <;> decide
    have hread := (stoiDigits_eq_ok_iff hpos hfit _).mpr ⟨zeros, rest, hzeros, hrest, rfl⟩
    rcases hsign with rfl | rfl
    . have hdrop := Text.dropWhile_append_stop (r := zeros ++ (toStr tid ++ rest)) hspaces
        (fun c hc => hnospace c (hhead c hc))
      rw [List.nil_append, stoi_of_unsigned, hdrop, hread]
      . rw [hdrop]
        exact fun h => absurd (hhead _ h) (by decide)
      . rw [hdrop]
        exact fun h => absurd (hhead _ h) (by decide)
    . have hdrop := Text.dropWhile_append_stop (r := '+' :: (zeros ++ (toStr tid ++ rest))) hspaces
        (by simp [isSpace])
      rw [List.singleton_append, stoi_of_plus hdrop, hread]

end StartsWithTid

/--
The name has no `[`, or the text behind its first `[` starts with the tid itself.
-/
def NameReadsTid (name : Str) (tid : Pid) : Prop :=
  '[' ∉ name ∨ ∃ before after, name = before ++ '[' :: after ∧ '[' ∉ before ∧ StartsWithTid after tid

section extract

variable {before after : Str}

theorem endsNumber_open : EndsNumber '[' := ⟨by decide, by decide, by decide, by decide⟩

theorem endsNumber_close : EndsNumber ']' := ⟨by decide, by decide, by decide, by decide⟩

/--
The tid is read from the text behind the first `[`: the first `]` only ends it where it ends a number anyway,
and if it comes before the first `[` the length wraps around and takes in all of the text.
-/
theorem extractTidFromIdentifier_eq (hbefore : '[' ∉ before) (hclose : ']' ∈ before ++ '[' :: after)
    (hlength : (before ++ '[' :: after).length < 2 ^ 63) :
    extractTidFromIdentifier (before ++ '[' :: after) = stoi after := by
  have hopen := Text.idxOf?_append_cons hbefore after
  have hdrop : (before ++ '[' :: after).drop (before.length + 1) = after := by
    rw [List.drop_append, List.drop_eq_nil_of_le (by omega)]
    simp
  rw [List.length_append, List.length_cons] at hlength
  by_cases hin : ']' ∈ before
  . obtain ⟨u, v, rfl, hu⟩ := List.eq_append_cons_of_mem hin
    have hend : ((u ++ ']' :: v) ++ '[' :: after).idxOf? ']' = some u.length := by
      rw [List.append_assoc, List.cons_append]
      exact Text.idxOf?_append_cons hu _
    simp only [extractTidFromIdentifier, hopen, hend, substr, hdrop]
    rw [List.take_of_length_le]
    rw [List.length_append, List.length_cons] at hlength ⊢
    omega
  . have hafter : ']' ∈ after := by
      simpa [hin] using hclose
    obtain ⟨u, v, rfl, hu⟩ := List.eq_append_cons_of_mem hafter
    have hend : (before ++ '[' :: (u ++ ']' :: v)).idxOf? ']' = some (before ++ '[' :: u).length := by
      have hnot : ']' ∉ before ++ '[' :: u := by simp [hin, hu]
      have := Text.idxOf?_append_cons hnot v
      rwa [List.append_assoc, List.cons_append] at this
    have hlen : (2 ^ 64 + (before ++ '[' :: u).length - before.length - 1) % 2 ^ 64 = u.length := by
      rw [List.length_append, List.length_cons] at hlength ⊢
      omega
    simp only [extractTidFromIdentifier, hopen, hend, substr, hdrop, hlen]
    rw [List.take_left, stoi_append_cons endsNumber_close]

theorem extractTid_identifierOf_iff {name : Str} {tid : Int} (hpos : 0 < tid) (hfit : tid ≤ 2147483647)
    (hlength : (identifierOf name tid).length < 2 ^ 63) :
    extractTidFromIdentifier (identifierOf name tid) = .ok tid ↔ NameReadsTid name tid := by
  have hshape : identifierOf name tid = name ++ '[' :: (toStr tid ++ [']']) := by
    simp [identifierOf]
  by_cases hname : '[' ∈ name
  . obtain ⟨u, v, rfl, hu⟩ := List.eq_append_cons_of_mem hname
    have hsplit : identifierOf (u ++ '[' :: v) tid = u ++ '[' :: (v ++ '[' :: (toStr tid ++ [']'])) := by
      simp [identifierOf]
    rw [hsplit] at hlength ⊢
    rw [extractTidFromIdentifier_eq hu (by simp) hlength, stoi_append_cons endsNumber_open,
      stoi_eq_ok_iff hpos hfit]
    constructor
    . intro h
      exact .inr ⟨u, v, rfl, hu, h⟩
    . rintro (h | ⟨before, after, heq, hbefore, h⟩)
      . exact absurd hname h
      . have hlen : u.length = before.length := by
          have hfirst := Text.idxOf?_append_cons hu v
          rw [heq, Text.idxOf?_append_cons hbefore] at hfirst
          exact (Option.some.inj hfirst).symm
        have hafter : v = after := (List.cons.inj (List.append_inj heq hlen).2).2
        rw [hafter]
        exact h
  . rw [hshape] at hlength ⊢
    rw [extractTidFromIdentifier_eq hname (by simp) hlength, stoi_append_cons endsNumber_close,
      stoi_eq_ok_iff hpos hfit]
    apply iff_of_true
    . exact ⟨[], [], [], [], by simp, .inl rfl, by simp, by simp, by simp⟩
    . exact .inl hname

end extract

section length

theorem readComm_length_le (file : Option Str) : (readComm file).length ≤ 255 := by
  unfold readComm
  split
  . next buffer h =>
    obtain ⟨content, -, hbuffer⟩ := Option.bind_eq_some_iff.mp h
    have hle : buffer.length ≤ 255 := Text.readLine_length_le hbuffer
    apply (List.length_filter_le _ _).trans
    exact (List.takeWhile_sublist _).length_le.trans hle
  . simp

theorem toStr_length_le {tid : Int} (hpos : 0 < tid) (hfit : tid ≤ 2147483647) : (toStr tid).length ≤ 10 := by
  rw [toStr_of_pos hpos, Nat.length_toDigits_le_iff (by omega) (by omega)]
  omega

end length

namespace GlobalState

def initOf (targetPid : Pid) : GlobalState := { init with targetPid := targetPid }

def threadName (s : GlobalState) (proc : ProcFs) (tid : Pid) : Str :=
  (getThreadName s.targetPid proc tid s.threadInfoCache).1

theorem threadIdentifier_fst (s : GlobalState) (proc : ProcFs) (tid : Pid) :
    (s.threadIdentifier proc tid).1 = identifierOf (s.threadName proc tid) tid := rfl

def ShortNames (s : GlobalState) : Prop :=
  ∀ (tid : Int) info, s.threadInfoCache.lookup tid = some info → 0 < tid → tid ≤ 2147483647 →
    info.name.length ≤ 255

variable {s : GlobalState}

theorem ShortNames.threadName_length_le (h : s.ShortNames) (proc : ProcFs) {tid : Int} (hpos : 0 < tid)
    (hfit : tid ≤ 2147483647) : (s.threadName proc tid).length ≤ 255 := by
  simp only [threadName, getThreadName]
  split
  . next info hinfo => exact h tid info hinfo hpos hfit
  . have hfallback : (['t', 'h', 'r', 'e', 'a', 'd', '-'] ++ toStr tid).length ≤ 255 := by
      have hstr := toStr_length_le hpos hfit
      rw [List.length_append]
      simp only [List.length_cons, List.length_nil]
      omega
    split
    . split
      . exact hfallback
      . exact readComm_length_le _
    . split
      . exact hfallback
      . exact readComm_length_le _

theorem ShortNames.threadIdentifier (h : s.ShortNames) (proc : ProcFs) (tid : Pid) :
    (s.threadIdentifier proc tid).2.ShortNames := by
  intro tid' info hinfo hpos hfit
  by_cases htid : tid' = tid
  . subst htid
    obtain ⟨cached, hcached, hname⟩ := getThreadName_cached s.targetPid proc tid' s.threadInfoCache
    have hsame : info = cached := Option.some.inj (hinfo.symm.trans hcached)
    rw [hsame, hname]
    exact h.threadName_length_le proc hpos hfit
  . apply h tid' info _ hpos hfit
    simp only [GlobalState.threadIdentifier, getThreadIdentifier, getThreadName] at hinfo
    split at hinfo
    . exact hinfo
    . rwa [AList.lookup_insert_ne htid] at hinfo

theorem shortNames_afterCalls (targetPid : Pid) (calls : List IdentifierCall) :
    ((initOf targetPid).afterCalls calls).ShortNames := by
  apply Run.foldl_invariant (I := ShortNames)
  . intro s c h
    exact h.threadIdentifier c.proc c.tid
  . intro tid info h
    cases h

/--
The tid comes back out of an identifier exactly if the name has no `[` or shows the tid behind it.
-/
theorem extractTid_threadIdentifier_iff (targetPid : Pid) (calls : List IdentifierCall) (proc : ProcFs)
    {tid : Pid} (hpos : 0 < tid) (hfit : tid ≤ 2147483647) :
    extractTidFromIdentifier
        (((initOf targetPid).afterCalls calls).threadIdentifier proc tid).1 = .ok tid
      ↔
    NameReadsTid (((initOf targetPid).afterCalls calls).threadName proc tid) tid := by
  rw [threadIdentifier_fst]
  apply extractTid_identifierOf_iff hpos hfit
  have hname := (shortNames_afterCalls targetPid calls).threadName_length_le proc hpos hfit
  have hstr := toStr_length_le hpos hfit
  simp only [identifierOf, List.length_append, List.length_cons, List.length_nil]
  omega

theorem extractTid_threadIdentifier_iff_mimic :
    extractTidFromIdentifier (identifierOf ['a', '[', '2', ']'] 7) = .ok 7
      ↔
    NameReadsTid ['a', '[', '2', ']'] 7 :=
  extractTid_threadIdentifier_iff 0 [mimicked] mimic.proc (by decide : (0 : Pid) < 7) (by decide)

/-- The thread 17 of the name `w[1]` is taken for the thread 1. -/
theorem exists_tidLost : ¬∀ (calls : List IdentifierCall) (proc : ProcFs) (tid : Pid),
    0 < tid → tid ≤ 2147483647 →
      extractTidFromIdentifier ((init.afterCalls calls).threadIdentifier proc tid).1 = .ok tid := by
  intro h
  have hread := h [] ⟨fun _ => some ['w', '[', '1', ']'], fun _ _ => none⟩ 17 (by decide) (by decide)
  exact absurd hread (by decide)

end GlobalState

end DeadlockInterceptor
