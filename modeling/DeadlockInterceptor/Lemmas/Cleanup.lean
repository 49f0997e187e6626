import DeadlockInterceptor.Impl.Cleanup

/-!
This module contains what the last check of `cleanup_stuck_threads` depends on. The label of the line it looks into
contains one of the letters it looks for.
-/

namespace DeadlockInterceptor

section labelledLine

variable {before rest : Str}

theorem hasLabel_readLine (rest : Str) :
    ∃ buffer, Text.readLine 254 (stateLabel ++ rest) = some buffer ∧ hasLabel stateLabel buffer = true := by
  refine ⟨_, rfl, ?_⟩
  simp [stateLabel, Text.firstLine, hasLabel]

def EndsLine (before : Str) : Prop := before = [] ∨ before.getLast? = some '\n'

theorem endsLine_lines (lines : List Str) : EndsLine (lines.flatMap fun line => line ++ ['\n']) := by
  induction lines with
  | nil => exact .inl rfl
  | cons line lines ih =>
    right
    rw [List.flatMap_cons]
    rcases ih with hnil | hlast
    . rw [hnil, List.append_nil, List.getLast?_concat]
    . rw [List.getLast?_append, hlast]
      rfl

theorem EndsLine.drop (h : EndsLine before) (n : Nat) : EndsLine (before.drop n) := by
  rcases h with rfl | hlast
  . exact .inl List.drop_nil
  . by_cases hle : before.length ≤ n
    . exact .inl (List.drop_eq_nil_of_le hle)
    . right
      rw [List.getLast?_drop, if_neg hle, hlast]

theorem labelledLine_of_readLine {label content buffer : Str} (h : Text.readLine 254 content = some buffer) :
    labelledLine label content
      =
    if hasLabel label buffer then some buffer else labelledLine label (content.drop buffer.length) := by
  rw [labelledLine, Text.buffers_of_readLine h, List.find?_cons]
  cases hasLabel label buffer <;> rfl

theorem labelledLine_append (h : EndsLine before) (rest : Str) :
    ∃ buffer, labelledLine stateLabel (before ++ (stateLabel ++ rest)) = some buffer ∧
      hasLabel stateLabel buffer = true := by
  induction hlength : before.length using Nat.strong_induction_on generalizing before with
  | _ n ih =>
    cases before with
    | nil =>
      obtain ⟨buffer, hbuffer, hlabel⟩ := hasLabel_readLine rest
      refine ⟨buffer, ?_, hlabel⟩
      rw [List.nil_append, labelledLine_of_readLine hbuffer, if_pos hlabel]
    | cons c before =>
      have hmem : '\n' ∈ c :: before := List.mem_of_getLast? (h.resolve_left (List.cons_ne_nil c before))
      obtain ⟨buffer, hbuffer⟩ : ∃ buffer, Text.readLine 254 (c :: before ++ (stateLabel ++ rest)) = some buffer :=
        ⟨_, rfl⟩
      have hle : buffer.length ≤ (c :: before).length := Text.readLine_append_length_le hmem hbuffer
      rw [labelledLine_of_readLine hbuffer]
      by_cases hlabel : hasLabel stateLabel buffer = true
      . exact ⟨buffer, if_pos hlabel, hlabel⟩
      . have hpos := (Text.readLine_length_pos hbuffer).1
        have hshorter : ((c :: before).drop buffer.length).length < n := by
          rw [List.length_drop]
          omega
        rw [if_neg hlabel, List.drop_append_of_le_length hle]
        exact ih _ hshorter (h.drop buffer.length) rfl

end labelledLine

theorem strchr_of_hasLabel {line : Str} (h : hasLabel stateLabel line = true) : strchr line 'S' = true := by
  cases line with
  | nil => cases h
  | cons c line =>
    have hc : c = 'S' := (List.cons.inj (of_decide_eq_true h)).1
    simp [strchr, hc]

def statusText (lines : List Str) (c : Char) (description after : Str) : Str :=
  (lines.flatMap fun line => line ++ ['\n']) ++
    (stateLabel ++ (['\t', c, ' ', '('] ++ description ++ [')', '\n'] ++ after))

theorem isAlive_statusText (lines : List Str) (c : Char) (description after : Str) :
    isAlive (statusText lines c description after) = true := by
  obtain ⟨line, hline, hlabel⟩ := labelledLine_append (endsLine_lines lines)
    (['\t', c, ' ', '('] ++ description ++ [')', '\n'] ++ after)
  rw [isAlive, statusText, hline]
  simp [strchr_of_hasLabel hlabel]

def CountsByLetter (lines : List Str) (c : Char) (description after : Str) : Prop :=
  countsAsFailed (some (statusText lines c description after)) = true ↔ c ∉ ['R', 'S', 'T']

/--
No thread with a line for its state is counted, so the count is right only for one that is not to be counted.
-/
theorem countsByLetter_iff (lines : List Str) (c : Char) (description after : Str) :
    CountsByLetter lines c description after ↔ c ∈ ['R', 'S', 'T'] := by
  have hnot : ¬countsAsFailed (some (statusText lines c description after)) = true := by
    rw [countsAsFailed, isAlive_statusText]
    exact Bool.false_ne_true
  rw [CountsByLetter, iff_false_left hnot, not_not]

/-- A thread in an uninterruptible sleep. -/
theorem exists_notCounted : ¬∀ (lines : List Str) (c : Char) (description after : Str),
    CountsByLetter lines c description after := by
  intro h
  have hcount := (h [] 'D' "disk sleep".toList []).mpr (by decide)
  rw [countsAsFailed, isAlive_statusText] at hcount
  cases hcount

end DeadlockInterceptor
