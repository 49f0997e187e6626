import DeadlockInterceptor.Spec.Mapping
import Mathlib.Data.List.TakeWhile

/-!
This module contains that every mapping is read back from the memory map of a process. Besides the mappings only the
rests of lines that do not fit the buffer can be taken for regions.
-/

namespace DeadlockInterceptor

open Text

theorem isSpace_of_isHex (c : Char) (h : isHex c = true) : isSpace c = false := by
  rw [Bool.eq_false_iff]
  intro hspace
  simp only [isSpace, Bool.or_eq_true, decide_eq_true_eq] at hspace
  rcases hspace with ((((rfl | rfl) | rfl) | rfl) | rfl) | rfl <;> revert h <;> decide

namespace MappingLine

variable (m : MappingLine)

theorem write_append (tail : Str) : m.write tail = m.write [] ++ tail := by
  simp [write]

theorem sscanf_hex {width n : Nat} {c : Char} (hc : isHex c = false ∧ c ≠ 'x' ∧ c ≠ 'X') (rest : Str) (assign : Bool)
    (format : List Directive) :
    sscanf isSpace (hexPadded width n ++ c :: rest) (.hex assign :: format)
      =
    (if assign then [.num (toUnsigned false n)] else []) ++ sscanf isSpace (c :: rest) format := by
  have hhead : ∀ d ∈ (c :: rest).head?, isHex d = false ∧ d ≠ 'x' ∧ d ≠ 'X' := fun d hd => Option.some.inj hd ▸ hc
  have hrun := Directive.run_hex isSpace_of_isHex (fun _ => isHex_of_mem_hexPadded) (hexPadded_ne_nil width n) hhead
    assign
  rw [sscanf_of_run hrun, ofHex_hexPadded]

theorem sscanf_literal (c : Char) (rest : Str) (format : List Directive) :
    sscanf isSpace (c :: rest) (.literal c :: format) = sscanf isSpace rest format :=
  sscanf_of_run (Directive.run_literal c rest) format

theorem sscanf_space {rest : Str} (hrest : ∀ c ∈ rest.head?, isSpace c = false) (format : List Directive) :
    sscanf isSpace (' ' :: rest) (.space :: format) = sscanf isSpace rest format := by
  have hrun : Directive.space.run isSpace ([' '] ++ rest) = some ([], rest) :=
    Directive.run_space (by simp [isSpace]) hrest
  exact sscanf_of_run hrun format

theorem isSpace_head_hexPadded {width n : Nat} {rest : Str} {c : Char} (hc : c ∈ (hexPadded width n ++ rest).head?) :
    isSpace c = false :=
  isSpace_of_isHex c (isHex_of_mem_hexPadded (mem_of_head?_append (hexPadded_ne_nil width n) hc))

theorem isSpace_head_toDigits {n : Nat} {rest : Str} {c : Char} (hc : c ∈ (Nat.toDigits 10 n ++ rest).head?) :
    isSpace c = false := by
  have hdigit := Nat.isDigit_of_mem_toDigits (by omega) (by omega) (mem_of_head?_append Nat.toDigits_ne_nil hc)
  exact isSpace_of_isHex c (by simp [isHex, hdigit])

theorem sscanf_write (hne : m.perms ≠ []) (hle : m.perms.length ≤ 7) (hplain : ∀ c ∈ m.perms, isSpace c = false)
    (tail : Str) :
    sscanf isSpace (m.write tail) mapsFormat
      =
    [.num m.start.toNat, .num m.endAddr.toNat, .text m.perms] ++
      sscanf isSpace (tail.dropWhile isSpace) [.toNewline 255] := by
  have hstart := toUnsigned_of_lt (UInt64.toNat_lt m.start)
  have hend := toUnsigned_of_lt (UInt64.toNat_lt m.endAddr)
  have hperms : ∀ rest : Str, sscanf isSpace (m.perms ++ ' ' :: rest) (.word 7 :: mapsFormat.drop 5)
      = [.text m.perms] ++ sscanf isSpace (' ' :: rest) (mapsFormat.drop 5) := fun rest =>
    sscanf_of_run (Directive.run_word hplain hne hle (by simp [isSpace])) _
  have hinode : ∀ rest : Str, sscanf isSpace (Nat.toDigits 10 m.inode ++ ' ' :: rest) (.skipInt :: mapsFormat.drop 13)
      = sscanf isSpace (' ' :: rest) (mapsFormat.drop 13) := fun rest =>
    sscanf_of_run (Directive.run_skipInt isSpace_of_isHex m.inode (by simp)) _
  have hname : sscanf isSpace (' ' :: (List.replicate m.padding ' ' ++ tail)) (mapsFormat.drop 13)
      = sscanf isSpace (tail.dropWhile isSpace) [.toNewline 255] := by
    have hdrop : (' ' :: (List.replicate m.padding ' ' ++ tail)).dropWhile isSpace = tail.dropWhile isSpace := by
      rw [← List.cons_append, ← List.replicate_succ, List.dropWhile_append_of_pos]
      intro c hc
      rw [List.eq_of_mem_replicate hc]
      decide
    rw [← hdrop]
    rfl
  have hpermsHead : ∀ rest, ∀ c ∈ (m.perms ++ rest).head?, isSpace c = false := fun rest c hc =>
    hplain c (mem_of_head?_append hne hc)
  calc sscanf isSpace (m.write tail) mapsFormat
    _ = [.num m.start.toNat, .num m.endAddr.toNat] ++ sscanf isSpace _ (.word 7 :: mapsFormat.drop 5) := by
      rw [write, mapsFormat, sscanf_hex (by decide), sscanf_literal, sscanf_hex (by decide), hstart, hend,
        sscanf_space (hpermsHead _)]
      rfl
    _ = [.num m.start.toNat, .num m.endAddr.toNat, .text m.perms]
        ++ sscanf isSpace _ (.skipInt :: mapsFormat.drop 13) := by
      rw [hperms]
      simp only [mapsFormat, List.drop_succ_cons, List.drop_zero]
      rw [sscanf_space fun c => isSpace_head_hexPadded, sscanf_hex (by decide),
        sscanf_space fun c => isSpace_head_hexPadded, sscanf_hex (by decide), sscanf_literal, sscanf_hex (by decide), sscanf_space fun c => isSpace_head_toDigits]
      rfl
    _ = [.num m.start.toNat, .num m.endAddr.toNat, .text m.perms] ++
        sscanf isSpace (tail.dropWhile isSpace) [.toNewline 255] := by
      rw [hinode, hname]

end MappingLine

namespace Mapping

variable (m : Mapping)

theorem plain_columns {c : Char} (hc : c ∈ m.write []) : c ≠ '\n' ∧ c ≠ '\x00' := by
  have hhex : ∀ c, isHex c = true → c ≠ '\n' ∧ c ≠ '\x00' := by
    intro c h
    constructor <;> rintro rfl <;> revert h <;> decide
  have hdigit : ∀ {c}, c ∈ Nat.toDigits 10 m.inode → c ≠ '\n' ∧ c ≠ '\x00' := fun h =>
    hhex _ (by simp [isHex, Nat.isDigit_of_mem_toDigits (by omega) (by omega) h])
  have hpadded : ∀ {c width n}, c ∈ hexPadded width n → c ≠ '\n' ∧ c ≠ '\x00' := fun h =>
    hhex _ (isHex_of_mem_hexPadded h)
  have hperms : ∀ {c}, c ∈ m.perms → c ≠ '\n' ∧ c ≠ '\x00' := by
    intro c h
    obtain ⟨hspace, hnul⟩ := m.perms_plain c h
    refine ⟨?_, hnul⟩
    rintro rfl
    cases hspace
  simp only [MappingLine.write, List.mem_append, List.mem_cons, List.mem_replicate, List.not_mem_nil, or_false] at hc
  rcases hc with h | rfl | h | rfl | h | rfl | h | rfl | h | rfl | h | rfl | h | rfl | ⟨-, rfl⟩
  . exact hpadded h
  . decide
  . exact hpadded h
  . decide
  . exact hperms h
  . decide
  . exact hpadded h
  . decide
  . exact hpadded h
  . decide
  . exact hpadded h
  . decide
  . exact hdigit h
  . decide
  . decide

theorem newline_notMem_line : '\n' ∉ m.line := by
  rw [line, MappingLine.write_append, List.mem_append, not_or]
  exact ⟨fun h => (m.plain_columns h).1 rfl, fun h => (m.name_plain _ h).1 rfl⟩

theorem sscanf_name {k : Nat} (hk : 255 ≤ k) :
    sscanf isSpace (((m.name ++ ['\n']).take k).dropWhile isSpace) [.toNewline 255]
      =
    if m.name = [] then [] else [.text (m.name.take 255)] := by
  cases hname : m.name with
  | nil =>
    have htake : ([] ++ ['\n']).take k = ['\n'] := List.take_of_length_le (by simp; omega)
    rw [htake, if_pos rfl]
    rfl
  | cons c name =>
    have hhead : isSpace c = false := m.name_head c (by rw [hname]; rfl)
    obtain ⟨k, rfl⟩ : ∃ j, k = j + 1 := ⟨k - 1, by omega⟩
    have hdrop : ((c :: name ++ ['\n']).take (k + 1)).dropWhile isSpace = (c :: name ++ ['\n']).take (k + 1) := by
      rw [List.cons_append, List.take_succ_cons, List.dropWhile_cons_of_neg (by simp [hhead])]
    have hnewline : ∀ d ∈ (c :: name).take 255, decide (d ≠ '\n') = true := fun d hd => by
      simpa using (m.name_plain d (hname ▸ List.mem_of_mem_take hd)).1
    have hchars : (((c :: name ++ ['\n']).take (k + 1)).take 255).takeWhile (· ≠ '\n') = (c :: name).take 255 := by
      rw [List.take_take, Nat.min_eq_left hk, List.take_append]
      apply takeWhile_append_stop hnewline
      intro d hd
      cases hrest : 255 - (c :: name).length with
      | zero =>
        rw [hrest] at hd
        cases hd
      | succ j =>
        rw [hrest] at hd
        simp only [List.take_succ_cons, List.head?_cons, Option.mem_some_iff] at hd
        simp [← hd]
    have hne : (c :: name).take 255 ≠ [] := by simp
    rw [hdrop, if_neg (List.cons_ne_nil c name)]
    simp only [sscanf, Directive.run, hchars, Directive.nonempty_of_ne_nil hne, if_true, List.append_nil]

theorem regionOfLine_write {k : Nat} (hk : 255 ≤ k) :
    regionOfLine (m.write ((m.name ++ ['\n']).take k)) = some m.region := by
  have hnul : ∀ c ∈ m.write ((m.name ++ ['\n']).take k), decide (c ≠ '\x00') = true := by
    intro c hc
    rw [MappingLine.write_append, List.mem_append] at hc
    rw [decide_eq_true_eq]
    rcases hc with hc | hc
    . exact (m.plain_columns hc).2
    . rcases List.mem_append.mp (List.mem_of_mem_take hc) with hc | hc
      . exact (m.name_plain c hc).2
      . rw [List.mem_singleton.mp hc]
        decide
  rw [regionOfLine, List.takeWhile_eq_self_iff.mpr hnul,
    m.sscanf_write m.perms_ne_nil m.perms_le (fun c hc => (m.perms_plain c hc).1), m.sscanf_name hk]
  split
  . next hname => simp [regionOfValues, region, hname]
  . simp [regionOfValues, region]

theorem buffers_line_eq : ∃ first, regionOfLine first = some m.region ∧
    Text.buffers 510 (m.line ++ ['\n']) = first :: m.leftover := by
  have hcolumns := m.columns_le
  have hsplit : m.line ++ ['\n'] = m.write (m.name ++ ['\n']) := by
    rw [line, MappingLine.write_append, MappingLine.write_append _ (_ ++ _), List.append_assoc]
  by_cases hsize : m.line.length ≤ 510
  . refine ⟨m.line ++ ['\n'], ?_, ?_⟩
    . have hread := m.regionOfLine_write (k := (m.name ++ ['\n']).length + 255) (by omega)
      rwa [List.take_of_length_le (by omega), ← hsplit] at hread
    . have hbuffers := buffers_line m.newline_notMem_line hsize []
      rw [buffers_nil] at hbuffers
      rw [leftover, hbuffers]
      rfl
  . have hlt : 510 < m.line.length := Nat.lt_of_not_le hsize
    have hlength : m.line.length = (m.write []).length + m.name.length := by
      rw [line, MappingLine.write_append, List.length_append]
    refine ⟨m.line.take 511, ?_, ?_⟩
    . have hread := m.regionOfLine_write (k := 511 - (m.write []).length) (by omega)
      have htake : m.line.take 511 = m.write ((m.name ++ ['\n']).take (511 - (m.write []).length)) := by
        rw [MappingLine.write_append, line, MappingLine.write_append, List.take_append,
          List.take_of_length_le (l := m.write []) (by omega), List.take_append_of_le_length (by omega)]
      rwa [← htake] at hread
    . have hbuffers := buffers_of_lt m.newline_notMem_line hlt ['\n']
      rw [leftover, hbuffers]
      rfl

end Mapping

/-- Every mapping is found, and behind it what the rest of its line is taken for. -/
theorem readProcessMaps_mapsText (maps : List Mapping) :
    readProcessMaps (some (mapsText maps)) = maps.flatMap fun m => m.region :: m.leftover.filterMap regionOfLine := by
  have hbuffers : Text.buffers 510 (mapsText maps) = maps.flatMap fun m => Text.buffers 510 (m.line ++ ['\n']) := by
    induction maps with
    | nil => exact Text.buffers_nil
    | cons m maps ih =>
      rw [mapsText, List.flatMap_cons, List.append_assoc, List.singleton_append,
        Text.buffers_append m.newline_notMem_line, List.flatMap_cons]
      exact congrArg _ ih
  rw [readProcessMaps, hbuffers, List.filterMap_flatMap]
  congr 1
  funext m
  obtain ⟨first, hfirst, heq⟩ := m.buffers_line_eq
  rw [heq, List.filterMap_cons_some hfirst]

theorem flatMap_cons_eq_map_iff {α β : Type} (f : α → β) (g : α → List β) (l : List α) :
    (l.flatMap fun a => f a :: g a) = l.map f ↔ ∀ a ∈ l, g a = [] := by
  have hle : ∀ l : List α, l.length ≤ (l.flatMap fun a => f a :: g a).length := by
    intro l
    induction l with
    | nil => exact Nat.le_refl 0
    | cons a l ih =>
      simp only [List.flatMap_cons, List.length_append, List.length_cons]
      omega
  induction l with
  | nil => simp
  | cons a l ih =>
    rw [List.flatMap_cons, List.map_cons, List.cons_append, List.cons_inj_right, List.forall_mem_cons]
    constructor
    . intro h
      have hlength := congrArg List.length h
      have hrest := hle l
      rw [List.length_append, List.length_map] at hlength
      have hnil : g a = [] := List.length_eq_zero_iff.mp (by omega)
      rw [hnil, List.nil_append] at h
      exact ⟨hnil, ih.mp h⟩
    . rintro ⟨hnil, hrest⟩
      rw [hnil, List.nil_append, ih.mpr hrest]

/--
The regions are exactly the mappings, in their order, as long as no rest of a line that is too long for the buffer looks
like a mapping of its own.
-/
theorem readsExactly_iff (maps : List Mapping) :
    readProcessMaps (some (mapsText maps)) = maps.map Mapping.region
      ↔
    ∀ m ∈ maps, ∀ piece ∈ m.leftover, regionOfLine piece = none := by
  simp only [readProcessMaps_mapsText, flatMap_cons_eq_map_iff, List.filterMap_eq_nil_iff]

theorem leftover_of_fits {m : Mapping} (h : m.line.length ≤ 510) : m.leftover = [] := by
  rw [Mapping.leftover, buffers_line m.newline_notMem_line h]
  exact buffers_nil

/-- A file with a path of 443 bytes whose end looks like a mapping. -/
def misleadingMapping : Mapping where
  start := 0x400000
  endAddr := 0x401000
  perms := ['r', '-', 'x', 'p']
  offset := 0
  major := 8
  minor := 1
  inode := 7
  padding := 33
  name := '/' :: (List.replicate 437 'a' ++ ['1', '-', '2', ' ', 'x'])
  perms_ne_nil := by decide
  perms_le := by decide
  perms_plain := by simp [isSpace]
  name_plain := by
    intro c hc
    simp only [List.mem_cons, List.mem_append, List.mem_replicate, List.not_mem_nil, or_false] at hc
    rcases hc with rfl | ⟨-, rfl⟩ | rfl | rfl | rfl | rfl | rfl <;> decide
  name_head := by
    intro c hc
    rw [← Option.some.inj hc]
    rfl
  columns_le := by decide +kernel

theorem exists_misread : ¬∀ maps, readProcessMaps (some (mapsText maps)) = maps.map Mapping.region := by
  intro h
  have hread := (readProcessMaps_mapsText [misleadingMapping]).symm.trans (h [misleadingMapping])
  have hpiece := (flatMap_cons_eq_map_iff _ _ _).mp hread misleadingMapping (List.mem_singleton_self _)
  have hlt : 510 < misleadingMapping.line.length := by decide +kernel
  have hdrop : misleadingMapping.line.drop 511 = ['1', '-', '2', ' ', 'x'] := by decide +kernel
  have hregion : regionOfLine (['1', '-', '2', ' ', 'x'] ++ ['\n']) = some ⟨1, 2, ['x'], []⟩ := by decide +kernel
  rw [Mapping.leftover, buffers_of_lt misleadingMapping.newline_notMem_line hlt, hdrop, List.tail_cons,
    buffers_line (by decide) (by decide), buffers_nil, List.filterMap_cons_some hregion] at hpiece
  cases hpiece

end DeadlockInterceptor
