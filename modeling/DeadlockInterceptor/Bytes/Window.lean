import Mathlib.Data.UInt
import Mathlib.Data.List.GetD
import Mathlib.Data.List.Range

/-!
This module contains ranges of a memory with 64-bit addresses: the bytes that lie there, and the memory after other
bytes have been put there. A range wraps around at the highest address.
-/

namespace Window

variable {m : UInt64 → UInt8} {a x : UInt64} {bs cs : List UInt8} {i j n : Nat}

def window (m : UInt64 → UInt8) (a : UInt64) (n : Nat) : List UInt8 :=
  (List.range n).map fun i => m (a + .ofNat i)

def overlay (m : UInt64 → UInt8) (a : UInt64) (bs : List UInt8) (x : UInt64) : UInt8 :=
  bs.getD (x - a).toNat (m x)

theorem toNat_offset (a : UInt64) (hi : i < 2 ^ 64) : (a + .ofNat i - a).toNat = i := by
  rw [add_sub_cancel_left, UInt64.toNat_ofNat']
  omega

theorem add_ofNat_add (a : UInt64) (i j : Nat) : a + .ofNat i + .ofNat j = a + .ofNat (i + j) := by
  rw [UInt64.ofNat_add, add_assoc]

@[simp]
theorem length_window (m : UInt64 → UInt8) (a : UInt64) (n : Nat) : (window m a n).length = n := by
  rw [window, List.length_map, List.length_range]

theorem window_congr {m' : UInt64 → UInt8} (h : ∀ i, i < n → m (a + .ofNat i) = m' (a + .ofNat i)) :
    window m a n = window m' a n :=
  List.map_congr_left fun i hi => h i (List.mem_range.mp hi)

theorem window_append (m : UInt64 → UInt8) (a : UInt64) (i j : Nat) :
    window m a (i + j) = window m a i ++ window m (a + .ofNat i) j := by
  simp only [window, List.range_add, List.map_append, List.map_map, Function.comp_def, add_ofNat_add]

theorem take_window (m : UInt64 → UInt8) (a : UInt64) (h : i ≤ n) : (window m a n).take i = window m a i := by
  obtain ⟨j, rfl⟩ := Nat.exists_eq_add_of_le h
  rw [window_append, List.take_left' (length_window m a i)]

theorem drop_window (m : UInt64 → UInt8) (a : UInt64) (h : i ≤ n) :
    (window m a n).drop i = window m (a + .ofNat i) (n - i) := by
  obtain ⟨j, rfl⟩ := Nat.exists_eq_add_of_le h
  rw [window_append, List.drop_left' (length_window m a i), Nat.add_sub_cancel_left]

theorem overlay_of_le (h : bs.length ≤ (x - a).toNat) : overlay m a bs x = m x :=
  List.getD_eq_default _ _ h

theorem overlay_offset (m : UInt64 → UInt8) (a : UInt64) (h : i < bs.length) (hlength : bs.length ≤ 2 ^ 64) :
    overlay m a bs (a + .ofNat i) = bs[i] := by
  rw [overlay, toNat_offset a (by omega), List.getD_eq_getElem _ _ h]

theorem window_overlay (m : UInt64 → UInt8) (a : UInt64) (hlength : bs.length ≤ 2 ^ 64) :
    window (overlay m a bs) a bs.length = bs := by
  apply List.ext_getElem
  . rw [length_window]
  . intro i _ hi
    rw [← overlay_offset m a hi hlength]
    simp only [window, List.getElem_map, List.getElem_range]

theorem overlay_window (m : UInt64 → UInt8) (a : UInt64) (n : Nat) : overlay m a (window m a n) = m := by
  funext x
  by_cases h : (x - a).toNat < n
  . rw [overlay, List.getD_eq_getElem _ _ (by rwa [length_window])]
    simp only [window, List.getElem_map, List.getElem_range, UInt64.ofNat_toNat, add_sub_cancel]
  . apply overlay_of_le
    rw [length_window]
    omega

theorem toNat_sub_offset (x a : UInt64) (hi : i < 2 ^ 64) :
    (x - (a + .ofNat i)).toNat = if i ≤ (x - a).toNat then (x - a).toNat - i else 2 ^ 64 + (x - a).toNat - i := by
  rw [← sub_sub, UInt64.toNat_sub, UInt64.toNat_ofNat']
  have hx := (x - a).toNat_lt
  split
  . omega
  . omega

theorem overlay_append (m : UInt64 → UInt8) (a : UInt64) (hlength : bs.length + cs.length ≤ 2 ^ 64) :
    overlay (overlay m a bs) (a + .ofNat bs.length) cs = overlay m a (bs ++ cs) := by
  funext x
  have hx := (x - a).toNat_lt
  rcases Nat.eq_zero_or_pos cs.length with hcs | hcs
  . rw [List.length_eq_zero_iff.mp hcs, List.append_nil]
    rfl
  . have hoffset := toNat_sub_offset x a (i := bs.length) (by omega)
    by_cases hin : bs.length ≤ (x - a).toNat
    . rw [if_pos hin] at hoffset
      rw [overlay, hoffset, overlay_of_le hin, overlay, List.getD_append_right _ _ _ _ hin]
    . rw [if_neg hin] at hoffset
      rw [overlay_of_le (by omega), overlay, overlay, List.getD_append _ _ _ _ (by omega)]

theorem window_overlay_after (m : UInt64 → UInt8) (a : UInt64) (hlength : bs.length + n ≤ 2 ^ 64) :
    window (overlay m a bs) (a + .ofNat bs.length) n = window m (a + .ofNat bs.length) n := by
  apply window_congr
  intro i hi
  apply overlay_of_le
  rw [add_ofNat_add, toNat_offset a (by omega)]
  omega

theorem overlay_append_window (m : UInt64 → UInt8) (a : UInt64) (hlength : bs.length + n ≤ 2 ^ 64) :
    overlay m a (bs ++ window m (a + .ofNat bs.length) n) = overlay m a bs := by
  rw [← overlay_append m a (by rwa [length_window]), ← window_overlay_after m a hlength, overlay_window]

end Window
