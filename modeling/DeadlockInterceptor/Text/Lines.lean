import DeadlockInterceptor.Text.Digits

/-!
This module contains how a text is read line by line into a buffer. A line that does not fit is read in several
buffers. It also contains texts whose lines have a label, and what the buffers with a colon are for them.
-/

namespace Text

def firstLine : List Char → List Char
  | [] => []
  | c :: rest => if c = '\n' then [c] else c :: firstLine rest

theorem firstLine_of_notMem {line : List Char} (h : '\n' ∉ line) : firstLine line = line := by
  induction line with
  | nil => rfl
  | cons c line ih =>
    rw [List.mem_cons, not_or] at h
    rw [firstLine, if_neg (Ne.symm h.1), ih h.2]

theorem firstLine_append {line : List Char} (h : '\n' ∉ line) (rest : List Char) :
    firstLine (line ++ '\n' :: rest) = line ++ ['\n'] := by
  induction line with
  | nil => simp [firstLine]
  | cons c line ih =>
    rw [List.mem_cons, not_or] at h
    rw [List.cons_append, firstLine, if_neg (Ne.symm h.1), ih h.2]
    rfl

theorem firstLine_length_le (content : List Char) : (firstLine content).length ≤ content.length := by
  induction content with
  | nil => exact Nat.le_refl 0
  | cons c content ih =>
    rw [firstLine]
    split
    . exact Nat.succ_le_succ (Nat.zero_le _)
    . exact Nat.succ_le_succ ih

theorem firstLine_append_length_le {before : List Char} (h : '\n' ∈ before) (rest : List Char) (n : Nat) :
    (firstLine ((before ++ rest).take n)).length ≤ before.length := by
  induction before generalizing n with
  | nil => cases h
  | cons c before ih =>
    cases n with
    | zero => exact Nat.zero_le _
    | succ n =>
      rw [List.cons_append, List.take_succ_cons, firstLine]
      split
      . exact Nat.succ_le_succ (Nat.zero_le _)
      . next hne =>
        have hmem : '\n' ∈ before := (List.mem_cons.mp h).resolve_left fun heq => hne heq.symm
        exact Nat.succ_le_succ (ih hmem n)

/--
The next line, if the buffer has room for `size` characters and a newline. There is none at the end of the text.
-/
def readLine (size : Nat) : List Char → Option (List Char)
  | [] => none
  | c :: rest => some (firstLine (c :: rest.take size))

theorem readLine_length_pos {size : Nat} {content buffer : List Char} (h : readLine size content = some buffer) :
    0 < buffer.length ∧ 0 < content.length := by
  cases content with
  | nil => cases h
  | cons c rest =>
    rw [← Option.some.inj h, firstLine]
    refine ⟨?_, Nat.succ_pos _⟩
    split <;> exact Nat.succ_pos _

theorem readLine_length_le {size : Nat} {content buffer : List Char} (h : readLine size content = some buffer) :
    buffer.length ≤ size + 1 := by
  cases content with
  | nil => cases h
  | cons c rest =>
    rw [← Option.some.inj h]
    exact Nat.le_trans (firstLine_length_le _) (Nat.succ_le_succ (List.length_take_le size rest))

theorem readLine_append_length_le {size : Nat} {before rest buffer : List Char} (h : '\n' ∈ before)
    (hbuffer : readLine size (before ++ rest) = some buffer) : buffer.length ≤ before.length := by
  cases before with
  | nil => cases h
  | cons c before =>
    rw [← Option.some.inj hbuffer, ← List.take_succ_cons]
    exact firstLine_append_length_le h rest (size + 1)

theorem firstLine_subset (content : List Char) : firstLine content ⊆ content := by
  induction content with
  | nil => exact List.Subset.refl _
  | cons c content ih =>
    rw [firstLine]
    split
    . exact List.cons_subset_cons c (List.nil_subset content)
    . exact List.cons_subset_cons c ih

theorem readLine_subset {size : Nat} {content buffer : List Char} (h : readLine size content = some buffer) :
    buffer ⊆ content := by
  cases content with
  | nil => cases h
  | cons c rest =>
    rw [← Option.some.inj h]
    exact List.Subset.trans (firstLine_subset _) (List.cons_subset_cons c (List.take_subset size rest))

def buffers (size : Nat) (content : List Char) : List (List Char) :=
  match _ : readLine size content with
  | none => []
  | some buffer => buffer :: buffers size (content.drop buffer.length)
termination_by content.length
decreasing_by
  have hpos := readLine_length_pos ‹readLine size content = some buffer›
  rw [List.length_drop]
  omega

variable {size : Nat}

theorem buffers_nil : buffers size [] = [] := by
  rw [buffers]
  rfl

theorem buffers_of_readLine {content buffer : List Char} (h : readLine size content = some buffer) :
    buffers size content = buffer :: buffers size (content.drop buffer.length) := by
  rw [buffers]
  split
  . next hnone =>
    rw [hnone] at h
    cases h
  . next buffer' hsome =>
    obtain rfl : buffer' = buffer := Option.some.inj (hsome.symm.trans h)
    rfl

theorem readLine_append {line : List Char} (h : '\n' ∉ line) (hsize : line.length ≤ size) (rest : List Char) :
    readLine size (line ++ '\n' :: rest) = some (line ++ ['\n']) := by
  cases line with
  | nil => simp [readLine, firstLine]
  | cons c line =>
    have hlt : line.length < size := hsize
    have htake : (line ++ '\n' :: rest).take size = line ++ '\n' :: rest.take (size - line.length - 1) := by
      rw [List.take_append, List.take_of_length_le (Nat.le_of_lt hlt),
        List.take_cons (Nat.sub_pos_of_lt hlt)]
    rw [List.cons_append, readLine, htake, ← List.cons_append, firstLine_append h]

theorem buffers_line {line : List Char} (h : '\n' ∉ line) (hsize : line.length ≤ size) (rest : List Char) :
    buffers size (line ++ '\n' :: rest) = (line ++ ['\n']) :: buffers size rest := by
  rw [buffers_of_readLine (readLine_append h hsize rest), List.append_cons line '\n' rest, List.drop_left]

theorem readLine_of_lt {line : List Char} (h : '\n' ∉ line) (hsize : size < line.length) (rest : List Char) :
    readLine size (line ++ rest) = some (line.take (size + 1)) := by
  cases line with
  | nil => cases hsize
  | cons c line =>
    have hle : size ≤ line.length := Nat.le_of_lt_succ hsize
    rw [List.cons_append, readLine, List.take_append_of_le_length hle, ← List.take_succ_cons,
      firstLine_of_notMem fun hmem => h (List.mem_of_mem_take hmem)]

theorem buffers_of_lt {line : List Char} (h : '\n' ∉ line) (hsize : size < line.length) (rest : List Char) :
    buffers size (line ++ rest) = line.take (size + 1) :: buffers size (line.drop (size + 1) ++ rest) := by
  rw [buffers_of_readLine (readLine_of_lt h hsize rest), List.length_take, Nat.min_eq_left (by omega),
    List.drop_append_of_le_length (by omega)]

/-- The lines are read one after the other, be they too long for the buffer. -/
theorem buffers_append {line : List Char} (h : '\n' ∉ line) (rest : List Char) :
    buffers size (line ++ '\n' :: rest) = buffers size (line ++ ['\n']) ++ buffers size rest := by
  induction hlength : line.length using Nat.strongRecOn generalizing line with
  | _ n ih =>
    by_cases hsize : line.length ≤ size
    . rw [buffers_line h hsize, buffers_line h hsize, buffers_nil]
      rfl
    . have hlt : size < line.length := Nat.lt_of_not_le hsize
      have hdrop : '\n' ∉ line.drop (size + 1) := fun hmem => h (List.mem_of_mem_drop hmem)
      have hnext := ih _ (by rw [List.length_drop]; omega) hdrop rfl
      rw [buffers_of_lt h hlt, buffers_of_lt h hlt, hnext, List.cons_append]

theorem subset_of_mem_buffers {content buffer : List Char} (h : buffer ∈ buffers size content) : buffer ⊆ content := by
  induction hlength : content.length using Nat.strongRecOn generalizing content with
  | _ n ih =>
    cases hread : readLine size content with
    | none =>
      rw [buffers] at h
      split at h
      . simp at h
      . next hsome =>
        rw [hread] at hsome
        cases hsome
    | some first =>
      obtain ⟨hfirst, hcontent⟩ := readLine_length_pos hread
      rw [buffers_of_readLine hread] at h
      rcases List.mem_cons.mp h with rfl | h
      . exact readLine_subset hread
      . exact List.Subset.trans (ih _ (by rw [List.length_drop]; omega) h rfl) (List.drop_subset _ _)

structure Field where
  label : List Char
  value : List Char
  label_plain : ∀ c ∈ label, c ≠ ':' ∧ c ≠ '\n'
  value_plain : '\n' ∉ value

namespace Field

def line (f : Field) : List Char := f.label ++ ':' :: '\t' :: f.value

def buffer (size : Nat) (f : Field) : List Char := (f.line ++ ['\n']).take (size + 1)

/-- The line fits the buffer, or its label does and no other part of it can be taken for a label. -/
def Readable (size : Nat) (f : Field) : Prop := f.line.length ≤ size ∨ f.label.length ≤ size ∧ ':' ∉ f.value

variable {f : Field}

theorem newline_notMem_line : '\n' ∉ f.line := by
  have hlabel : '\n' ∉ f.label := fun hmem => (f.label_plain _ hmem).2 rfl
  simp [line, hlabel, f.value_plain]

theorem buffer_of_fits (h : f.line.length ≤ size) : f.buffer size = f.line ++ ['\n'] := by
  rw [buffer, List.take_of_length_le]
  rw [List.length_append, List.length_singleton]
  omega

theorem colon_mem_buffer (h : f.label.length ≤ size) : ':' ∈ f.buffer size := by
  rw [buffer, line, List.append_assoc, List.take_append, List.mem_append]
  right
  have hpos : size + 1 - f.label.length = size - f.label.length + 1 := by omega
  rw [hpos]
  exact List.mem_cons_self

theorem Readable.label_le (h : f.Readable size) : f.label.length ≤ size := by
  rcases h with hfits | ⟨hlabel, -⟩
  . rw [line, List.length_append] at hfits
    omega
  . exact hlabel

theorem Readable.exists_buffers (h : f.Readable size) :
    ∃ others, buffers size (f.line ++ ['\n']) = f.buffer size :: others ∧ ∀ piece ∈ others, ':' ∉ piece := by
  by_cases hfits : f.line.length ≤ size
  . refine ⟨[], ?_, by simp⟩
    rw [buffers_line newline_notMem_line hfits, buffer_of_fits hfits, buffers_nil]
  . obtain ⟨hlabel, hvalue⟩ := h.resolve_left hfits
    have hlt : size < f.line.length := Nat.lt_of_not_le hfits
    refine ⟨buffers size (f.line.drop (size + 1) ++ ['\n']), ?_, ?_⟩
    . rw [buffers_of_lt newline_notMem_line hlt, buffer, List.take_append_of_le_length (by omega)]
    . intro piece hpiece hcolon
      have hrest : f.line.drop (size + 1) ⊆ '\t' :: f.value := by
        have hsplit : f.line = (f.label ++ [':']) ++ '\t' :: f.value := by simp [line]
        rw [hsplit, List.drop_append, List.drop_eq_nil_of_le (by simp; omega), List.nil_append]
        exact List.drop_subset _ _
      rcases List.mem_append.mp (subset_of_mem_buffers hpiece hcolon) with hmem | hmem
      . rcases List.mem_cons.mp (hrest hmem) with htab | hmem
        . cases htab
        . exact hvalue hmem
      . simp at hmem

end Field

def fieldLines (fields : List Field) : List Char := fields.flatMap fun f => f.line ++ ['\n']

theorem filter_buffers_fieldLines {fields : List Field} (h : ∀ f ∈ fields, f.Readable size) :
    (buffers size (fieldLines fields)).filter (':' ∈ ·) = fields.map (Field.buffer size) := by
  induction fields with
  | nil => simp [fieldLines, buffers_nil]
  | cons f fields ih =>
    have hf : f.Readable size := h f List.mem_cons_self
    obtain ⟨others, heq, hothers⟩ := hf.exists_buffers
    have hsplit : fieldLines (f :: fields) = f.line ++ '\n' :: fieldLines fields := by simp [fieldLines]
    have hnone : others.filter (':' ∈ ·) = [] := by
      rw [List.filter_eq_nil_iff]
      exact fun piece hpiece => by simpa using hothers piece hpiece
    rw [hsplit, buffers_append Field.newline_notMem_line, heq, List.filter_append,
      List.filter_cons_of_pos (by simpa using Field.colon_mem_buffer hf.label_le), hnone,
      ih fun g hg => h g (List.mem_cons_of_mem f hg), List.map_cons]
    rfl

theorem Field.take_buffer_eq_iff (f : Field) {label : List Char} (hlabel : ':' ∉ label)
    (hsize : label.length ≤ size) :
    (f.buffer size).take (label.length + 1) = label ++ [':'] ↔ f.label = label := by
  have hplain : ':' ∉ f.label := fun hmem => (f.label_plain _ hmem).1 rfl
  rw [buffer, List.take_take, Nat.min_eq_left (by omega)]
  constructor
  . intro h
    obtain ⟨rest, hrest⟩ : label ++ [':'] <+: f.line ++ ['\n'] := h ▸ List.take_prefix _ _
    have hnames := congrArg (List.takeWhile (· ≠ ':')) hrest
    have hstop : ∀ (l r : List Char), ':' ∉ l → (l ++ ':' :: r).takeWhile (· ≠ ':') = l := by
      intro l r hl
      apply takeWhile_append_stop
      . intro c hc
        simp only [ne_eq, decide_eq_true_eq]
        rintro rfl
        exact hl hc
      . simp
    have hleft := hstop label rest hlabel
    have hright := hstop f.label (('\t' :: f.value) ++ ['\n']) hplain
    simp only [line, List.append_assoc, List.cons_append, List.nil_append] at hnames hleft hright
    rw [hleft, hright] at hnames
    exact hnames.symm
  . rintro rfl
    rw [line, List.append_assoc, List.take_length_add_append]
    rfl

end Text
