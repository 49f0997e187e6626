import DeadlockInterceptor.Text.Digits
import Mathlib.Data.Nat.Digits.Lemmas

/-!
This module contains the directives of `scanf` that read numbers, words and the rest of a line, and what they read from
a text that has been written field by field.
-/

namespace Text

def isHex (c : Char) : Bool := c.isDigit || ('a' ≤ c && c ≤ 'f') || ('A' ≤ c && c ≤ 'F')

def hexValue (c : Char) : Nat :=
  if c.isDigit then c.toNat - 48 else if 'a' ≤ c then c.toNat - 87 else c.toNat - 55

def ofHex (digits : List Char) : Nat := digits.foldl (fun n c => 16 * n + hexValue c) 0

section hex

theorem hexValue_digitChar {n : Nat} (h : n < 16) : hexValue n.digitChar = n := by
  interval_cases n <;> decide

theorem isHex_digitChar {n : Nat} (h : n < 16) : isHex n.digitChar = true := by
  interval_cases n <;> decide

theorem ofHex_append_singleton (digits : List Char) (c : Char) :
    ofHex (digits ++ [c]) = 16 * ofHex digits + hexValue c := by
  rw [ofHex, List.foldl_append]
  rfl

theorem toDigits_sixteen {n : Nat} (h : 16 ≤ n) :
    Nat.toDigits 16 n = Nat.toDigits 16 (n / 16) ++ [(n % 16).digitChar] := by
  have hdiv := Nat.div_add_mod n 16
  have hlt : n % 16 < 16 := Nat.mod_lt n (by omega)
  conv_lhs => rw [← hdiv]
  rw [← Nat.toDigits_append_toDigits (b := 16) (by omega) (by omega) hlt, Nat.toDigits_of_lt_base hlt]

theorem ofHex_toDigits (n : Nat) : ofHex (Nat.toDigits 16 n) = n := by
  induction n using Nat.strongRecOn with
  | _ n ih =>
    by_cases h : n < 16
    . rw [Nat.toDigits_of_lt_base h]
      simp [ofHex, hexValue_digitChar h]
    . rw [toDigits_sixteen (by omega), ofHex_append_singleton, ih _ (by omega),
        hexValue_digitChar (Nat.mod_lt n (by omega))]
      omega

theorem isHex_of_mem_toDigits {n : Nat} {c : Char} (hc : c ∈ Nat.toDigits 16 n) : isHex c = true := by
  induction n using Nat.strongRecOn with
  | _ n ih =>
    by_cases h : n < 16
    . rw [Nat.toDigits_of_lt_base h, List.mem_singleton] at hc
      rw [hc]
      exact isHex_digitChar h
    . rw [toDigits_sixteen (by omega), List.mem_append, List.mem_singleton] at hc
      rcases hc with hc | rfl
      . exact ih _ (by omega) hc
      . exact isHex_digitChar (Nat.mod_lt n (by omega))

/-- `printf` with the directive `%0<width>x`. -/
def hexPadded (width n : Nat) : List Char :=
  List.replicate (width - (Nat.toDigits 16 n).length) '0' ++ Nat.toDigits 16 n

theorem ofHex_hexPadded (width n : Nat) : ofHex (hexPadded width n) = n := by
  have hzeros : ∀ k, (List.replicate k '0').foldl (fun n c => 16 * n + hexValue c) 0 = 0 := by
    intro k
    induction k with
    | zero => rfl
    | succ k ih =>
      rw [List.replicate_succ, List.foldl_cons]
      exact ih
  rw [ofHex, hexPadded, List.foldl_append, hzeros]
  exact ofHex_toDigits n

theorem isHex_of_mem_hexPadded {width n : Nat} {c : Char} (hc : c ∈ hexPadded width n) : isHex c = true := by
  rcases List.mem_append.mp hc with hc | hc
  . rw [List.eq_of_mem_replicate hc]
    decide
  . exact isHex_of_mem_toDigits hc

theorem hexPadded_ne_nil (width n : Nat) : hexPadded width n ≠ [] :=
  List.append_ne_nil_of_right_ne_nil _ Nat.toDigits_ne_nil

end hex

inductive Directive where
  | space
  | literal (c : Char)
  | hex (assign : Bool)
  | skipInt
  | word (width : Nat)
  | toNewline (width : Nat)

inductive Value where
  | num (n : Nat)
  | text (s : List Char)
  deriving DecidableEq

def takeSign : List Char → Bool × List Char
  | '-' :: rest => (true, rest)
  | '+' :: rest => (false, rest)
  | input => (false, input)

def dropHexMark : List Char → List Char
  | '0' :: 'x' :: rest => rest
  | '0' :: 'X' :: rest => rest
  | input => input

/-- A number that does not fit is the largest one, a negative one wraps around. -/
def toUnsigned (neg : Bool) (n : Nat) : Nat :=
  if 2 ^ 64 ≤ n then 2 ^ 64 - 1 else if neg then (2 ^ 64 - n) % 2 ^ 64 else n

theorem toUnsigned_of_lt {n : Nat} (h : n < 2 ^ 64) : toUnsigned false n = n := by
  rw [toUnsigned, if_neg (Nat.not_le_of_lt h)]
  rfl

-- What counts as white space.
variable (isSpace : Char → Bool)

namespace Directive

def nonempty (assign : Bool) (value : List Char → Value) : List Char × List Char → Option (List Value × List Char)
  | ([], _) => none
  | (chars, rest) => some (if assign then [value chars] else [], rest)

def run (input : List Char) : Directive → Option (List Value × List Char)
  | space => some ([], input.dropWhile isSpace)
  | literal c => if input.head? = some c then some ([], input.tail) else none
  | hex assign =>
    let (neg, digits) := takeSign (input.dropWhile isSpace)
    nonempty assign (fun digits => .num (toUnsigned neg (ofHex digits))) ((dropHexMark digits).span isHex)
  | skipInt => nonempty false .text ((takeSign (input.dropWhile isSpace)).2.span Char.isDigit)
  | word width =>
    let input := input.dropWhile isSpace
    let chars := (input.take width).takeWhile fun c => !isSpace c
    nonempty true .text (chars, input.drop chars.length)
  | toNewline width =>
    let chars := (input.take width).takeWhile (· ≠ '\n')
    nonempty true .text (chars, input.drop chars.length)

end Directive

/-- The values that are assigned before the first directive that does not match. -/
def sscanf (input : List Char) : List Directive → List Value
  | [] => []
  | directive :: format =>
    match directive.run isSpace input with
    | none => []
    | some (values, rest) => values ++ sscanf rest format

section reads

variable {isSpace} {input rest : List Char}

theorem sscanf_of_run {directive : Directive} {values : List Value}
    (h : directive.run isSpace input = some (values, rest)) (format : List Directive) : sscanf isSpace input (directive :: format) = values ++ sscanf isSpace rest format := by
  simp only [sscanf, h]

theorem dropWhile_of_head {p : Char → Bool} (h : ∀ c ∈ input.head?, p c = false) : input.dropWhile p = input := by
  cases input with
  | nil => rfl
  | cons c input => rw [List.dropWhile_cons_of_neg (by simp [h c rfl])]

theorem takeSign_of_head (h : ∀ c ∈ input.head?, c ≠ '-' ∧ c ≠ '+') : takeSign input = (false, input) := by
  unfold takeSign
  split
  . exact absurd rfl (h '-' rfl).1
  . exact absurd rfl (h '+' rfl).2
  . rfl

theorem span_append {p : Char → Bool} (hinput : ∀ c ∈ input, p c = true) (hrest : ∀ c ∈ rest.head?, p c = false) :
    (input ++ rest).span p = (input, rest) := by
  have hneg : ∀ c ∈ rest.head?, ¬p c = true := fun c hc => by simp [hrest c hc]
  rw [List.span_eq_takeWhile_dropWhile, takeWhile_append_stop hinput hneg, dropWhile_append_stop hinput hneg]

theorem mem_of_head?_append {c : Char} (hne : input ≠ []) (hc : c ∈ (input ++ rest).head?) : c ∈ input := by
  rw [List.head?_append_of_ne_nil _ hne] at hc
  exact List.mem_of_mem_head? hc

namespace Directive

theorem nonempty_of_ne_nil {chars : List Char} (h : chars ≠ []) (assign : Bool) (value : List Char → Value) :
    nonempty assign value (chars, rest) = some (if assign then [value chars] else [], rest) := by
  cases chars with
  | nil => exact absurd rfl h
  | cons c chars => rfl

theorem run_space (hinput : ∀ c ∈ input, isSpace c = true) (hrest : ∀ c ∈ rest.head?, isSpace c = false) :
    space.run isSpace (input ++ rest) = some ([], rest) := by
  rw [run, dropWhile_append_stop hinput fun c hc => by simp [hrest c hc]]

theorem run_literal (c : Char) (rest : List Char) : (literal c).run isSpace (c :: rest) = some ([], rest) := by
  simp [run]

theorem dropHexMark_append (hinput : ∀ c ∈ input, isHex c = true) (hne : input ≠ [])
    (hrest : ∀ c ∈ rest.head?, c ≠ 'x' ∧ c ≠ 'X') : dropHexMark (input ++ rest) = input ++ rest := by
  have hsecond : ∀ d r, input ++ rest = '0' :: d :: r → d ≠ 'x' ∧ d ≠ 'X' := by
    intro d r heq
    cases input with
    | nil => exact absurd rfl hne
    | cons c input =>
      have htail : input ++ rest = d :: r := (List.cons.inj heq).2
      cases input with
      | nil =>
        rw [List.nil_append] at htail
        exact hrest d (by rw [htail]; rfl)
      | cons e input =>
        obtain rfl : e = d := (List.cons.inj htail).1
        have he := hinput e (by simp)
        constructor <;> rintro rfl <;> revert he <;> decide
  unfold dropHexMark
  split
  . next r heq => exact absurd rfl (hsecond 'x' r heq).1
  . next r heq => exact absurd rfl (hsecond 'X' r heq).2
  . rfl

variable (hspace : ∀ c, isHex c = true → isSpace c = false)

include hspace

theorem run_hex (hinput : ∀ c ∈ input, isHex c = true) (hne : input ≠ [])
    (hrest : ∀ c ∈ rest.head?, isHex c = false ∧ c ≠ 'x' ∧ c ≠ 'X') (assign : Bool) :
    (hex assign).run isSpace (input ++ rest)
      =
    some (if assign then [.num (toUnsigned false (ofHex input))] else [], rest) := by
  have hhead : ∀ c ∈ (input ++ rest).head?, isHex c = true := fun c hc => hinput c (mem_of_head?_append hne hc)
  have hsign : takeSign (input ++ rest) = (false, input ++ rest) := by
    apply takeSign_of_head
    intro c hc
    have hhex := hhead c hc
    constructor <;> rintro rfl <;> revert hhex <;> decide
  have hdrop : (input ++ rest).dropWhile isSpace = input ++ rest :=
    dropWhile_of_head fun c hc => hspace c (hhead c hc)
  have hmark := dropHexMark_append hinput hne fun c hc => (hrest c hc).2
  have hspan := span_append hinput fun c hc => (hrest c hc).1
  simp only [run, hdrop, hsign, hmark, hspan, nonempty_of_ne_nil hne]

theorem run_skipInt (n : Nat) (hrest : ∀ c ∈ rest.head?, c.isDigit = false) :
    skipInt.run isSpace (Nat.toDigits 10 n ++ rest) = some ([], rest) := by
  have hdigits : ∀ c ∈ Nat.toDigits 10 n, c.isDigit = true := fun c hc =>
    Nat.isDigit_of_mem_toDigits (by omega) (by omega) hc
  have hne : Nat.toDigits 10 n ≠ [] := Nat.toDigits_ne_nil
  have hhead : ∀ c ∈ (Nat.toDigits 10 n ++ rest).head?, c.isDigit = true := fun c hc =>
    hdigits c (mem_of_head?_append hne hc)
  have hsign : takeSign (Nat.toDigits 10 n ++ rest) = (false, Nat.toDigits 10 n ++ rest) := by
    apply takeSign_of_head
    intro c hc
    have hdigit := hhead c hc
    constructor <;> rintro rfl <;> revert hdigit <;> decide
  have hdrop : (Nat.toDigits 10 n ++ rest).dropWhile isSpace = Nat.toDigits 10 n ++ rest :=
    dropWhile_of_head fun c hc => hspace c (by simp [isHex, hhead c hc])
  simp only [run, hdrop, hsign, span_append hdigits hrest, nonempty_of_ne_nil hne]
  rfl

omit hspace

theorem run_word {width : Nat} (hinput : ∀ c ∈ input, isSpace c = false) (hne : input ≠ [])
    (hwidth : input.length ≤ width) (hrest : ∀ c ∈ rest.head?, isSpace c = true) :
    (word width).run isSpace (input ++ rest) = some ([.text input], rest) := by
  have hdrop : (input ++ rest).dropWhile isSpace = input ++ rest :=
    dropWhile_of_head fun c hc => hinput c (mem_of_head?_append hne hc)
  have htake : ((input ++ rest).take width).takeWhile (fun c => !isSpace c) = input := by
    rw [List.take_append, List.take_of_length_le hwidth]
    apply takeWhile_append_stop
    . exact fun c hc => by simp [hinput c hc]
    . intro c hc
      have hmem : c ∈ rest.head? := by
        cases hk : width - input.length with
        | zero => simp [hk] at hc
        | succ k =>
          rw [hk] at hc
          cases rest with
          | nil => simp at hc
          | cons d rest => exact hc
      simp [hrest c hmem]
  simp only [run, hdrop, htake, List.drop_left, nonempty_of_ne_nil hne]
  rfl

end Directive

end reads

end Text
