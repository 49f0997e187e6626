import DeadlockInterceptor.Impl.ProcessMemory

/-!
This module contains what `read_process_memory` and `write_process_memory` do to the bytes of the target. Both
access all the words that the range begins in or goes through, the last one may go beyond the range.
-/

namespace DeadlockInterceptor

namespace Long

theorem toBytes_ofBytes {bs : List UInt8} (h : bs.length = size) : (ofBytes bs).toBytes = bs := by
  have hlt := LittleEndian.value_lt bs
  rw [h] at hlt
  have hvalue : (ofBytes bs).toNat = LittleEndian.value bs := by
    rw [ofBytes, BitVec.toNat_ofNat]
    exact Nat.mod_eq_of_lt hlt
  rw [toBytes, hvalue, ← h, LittleEndian.bytes_value]

end Long

namespace Target

open Window

variable {target : Target} {addr : Addr}

def Accessible (target : Target) (addr : Addr) (size : Nat) : Prop :=
  ∀ k, Long.size * k < size → target.accessible (addr + .ofNat (Long.size * k)) = true

theorem accessible_of_pos {size : Nat} (hsize : 0 < size) (hle : size ≤ Long.size) :
    target.Accessible addr size ↔ target.accessible addr = true := by
  have hfirst : addr + .ofNat (Long.size * 0) = addr := add_zero addr
  constructor
  . intro h
    rw [← hfirst]
    exact h 0 hsize
  . intro h k hk
    obtain rfl : k = 0 := by
      unfold Long.size at hk hle
      omega
    rwa [hfirst]

theorem accessible_add (size : Nat) :
    target.Accessible addr (Long.size + size)
      ↔
    target.accessible addr = true ∧ target.Accessible (addr + 8) size := by
  have hnext : ∀ k, addr + .ofNat (Long.size * (k + 1)) = addr + 8 + .ofNat (Long.size * k) := by
    intro k
    rw [Nat.mul_succ, Nat.add_comm, UInt64.ofNat_add, ← add_assoc]
    rfl
  rw [← @accessible_of_pos target addr Long.size (by decide) (Nat.le_refl _)]
  unfold Accessible Long.size at *
  constructor
  . intro h
    refine ⟨fun k hk => h k (by omega), fun k hk => ?_⟩
    rw [← hnext]
    exact h (k + 1) (by omega)
  . rintro ⟨hfirst, hrest⟩ k hk
    cases k with
    | zero => exact hfirst 0 (by omega)
    | succ k =>
      rw [hnext]
      exact hrest k (by omega)

theorem peekData_of_accessible (h : target.accessible addr = true) :
    target.peekData addr = (.ofBytes (window target.memory addr Long.size), 0) := if_pos h

theorem peekData_of_not_accessible (h : ¬target.accessible addr = true) :
    target.peekData addr = (-1, eio) := if_neg h

theorem toBytes_peek (memory : Memory) (addr : Addr) :
    (Long.ofBytes (window memory addr Long.size)).toBytes = window memory addr Long.size :=
  Long.toBytes_ofBytes (length_window memory addr Long.size)

theorem readWords_eq (target : Target) (addr : Addr) (words : Nat) {dest : List UInt8}
    (hwords : dest.length / Long.size = words) :
    (target.Accessible addr dest.length →
      target.readWords words addr dest = (true, window target.memory addr dest.length)) ∧
    (¬target.Accessible addr dest.length → (target.readWords words addr dest).1 = false) := by
  induction words generalizing addr dest with
  | zero =>
    have hlt : dest.length < Long.size := by
      unfold Long.size at *
      omega
    rcases Nat.eq_zero_or_pos dest.length with hzero | hpos
    . obtain rfl := List.length_eq_zero_iff.mp hzero
      refine ⟨fun _ => rfl, fun hno => absurd (fun k hk => ?_) hno⟩
      exact absurd hk (Nat.not_lt_zero _)
    . rw [accessible_of_pos hpos (Nat.le_of_lt hlt), readWords, if_pos hpos]
      constructor
      . intro h
        rw [peekData_of_accessible h]
        change (true, (Long.ofBytes (window target.memory addr Long.size)).toBytes.take dest.length) = _
        rw [toBytes_peek, take_window _ _ (Nat.le_of_lt hlt)]
      . intro h
        rw [peekData_of_not_accessible h]
        rfl
  | succ words ih =>
    have hle : Long.size ≤ dest.length := by
      unfold Long.size at *
      omega
    have hlength : dest.length = Long.size + (dest.drop Long.size).length := by
      rw [List.length_drop]
      omega
    have hrest := @ih (addr + 8) (dest.drop Long.size) (by
      rw [List.length_drop]
      unfold Long.size at *
      omega)
    rw [hlength, accessible_add, readWords]
    by_cases h : target.accessible addr = true
    . rw [peekData_of_accessible h]
      constructor
      . rintro ⟨-, hall⟩
        change ((target.readWords words (addr + 8) (dest.drop Long.size)).1,
          (Long.ofBytes (window target.memory addr Long.size)).toBytes ++
            (target.readWords words (addr + 8) (dest.drop Long.size)).2) = _
        rw [hrest.1 hall, toBytes_peek, window_append]
        rfl
      . exact fun hno => hrest.2 fun hall => hno ⟨h, hall⟩
    . refine ⟨fun hall => absurd hall.1 h, fun _ => ?_⟩
      rw [peekData_of_not_accessible h]
      rfl

theorem readProcessMemory_fst (buffer : List UInt8) :
    (target.readProcessMemory addr buffer).1 = true ↔ target.Accessible addr buffer.length := by
  obtain ⟨hread, hfailed⟩ := @readWords_eq target addr _ buffer rfl
  constructor
  . intro h
    by_contra hno
    rw [readProcessMemory, hfailed hno] at h
    cases h
  . intro h
    rw [readProcessMemory, hread h]

def write (target : Target) (addr : Addr) (bs : List UInt8) : Target :=
  { target with memory := overlay target.memory addr bs }

theorem pokeData_of_accessible (h : target.accessible addr = true) (word : Long) :
    target.pokeData addr word = (0, target.write addr word.toBytes) := if_pos h

theorem pokeData_of_not_accessible (h : ¬target.accessible addr = true) (word : Long) :
    target.pokeData addr word = (-1, target) := if_neg h

theorem write_tail (target : Target) (addr : Addr) {src : List UInt8} (hlt : src.length < Long.size) :
    target.write addr (Long.ofBytes (src ++ (window target.memory addr Long.size).drop src.length)).toBytes
      =
    target.write addr src := by
  have hle := Nat.le_of_lt hlt
  have hlength : (src ++ (window target.memory addr Long.size).drop src.length).length = Long.size := by
    rw [List.length_append, List.length_drop, length_window, Nat.add_sub_cancel' hle]
  have hbound : src.length + (Long.size - src.length) ≤ 2 ^ 64 := by
    rw [Nat.add_sub_cancel' hle]
    decide
  rw [write, Long.toBytes_ofBytes hlength, drop_window _ _ hle, overlay_append_window _ _ hbound]
  rfl

theorem writeWords_eq (target : Target) (addr : Addr) (words : Nat) {src : List UInt8}
    (hwords : src.length / Long.size = words) (hsize : src.length ≤ 2 ^ 64)
    (hwrite : (target.writeWords words addr src).1 = true) :
    target.Accessible addr src.length ∧ target.writeWords words addr src = (true, target.write addr src) := by
  induction words generalizing target addr src with
  | zero =>
    have hlt : src.length < Long.size := by
      unfold Long.size at *
      omega
    rcases Nat.eq_zero_or_pos src.length with hzero | hpos
    . obtain rfl := List.length_eq_zero_iff.mp hzero
      exact ⟨fun k hk => absurd hk (Nat.not_lt_zero _), rfl⟩
    . rw [accessible_of_pos hpos (Nat.le_of_lt hlt)]
      rw [writeWords, if_pos hpos] at hwrite ⊢
      by_cases h : target.accessible addr = true
      . refine ⟨h, ?_⟩
        rw [peekData_of_accessible h]
        simp only [ne_eq, not_true_eq_false, if_false, toBytes_peek, pokeData_of_accessible h,
          write_tail target addr hlt]
        rfl
      . rw [peekData_of_not_accessible h] at hwrite
        cases hwrite
  | succ words ih =>
    have hle : Long.size ≤ src.length := by
      unfold Long.size at *
      omega
    have hlength : src.length = Long.size + (src.drop Long.size).length := by
      rw [List.length_drop]
      omega
    have htake : (src.take Long.size).length = Long.size := by
      rw [List.length_take, Nat.min_eq_left hle]
    rw [writeWords] at hwrite ⊢
    by_cases h : target.accessible addr = true
    . rw [pokeData_of_accessible h, Long.toBytes_ofBytes htake] at hwrite ⊢
      have hrest := @ih (target.write addr (src.take Long.size)) (addr + 8) (src.drop Long.size) (by
          rw [List.length_drop]
          unfold Long.size at *
          omega) (by omega) hwrite
      refine ⟨?_, hrest.2.trans ?_⟩
      . rw [hlength, accessible_add]
        exact ⟨h, hrest.1⟩
      . have happend : overlay (overlay target.memory addr (src.take Long.size)) (addr + 8) (src.drop Long.size)
            = overlay target.memory addr src := by
          have hbound : (src.take Long.size).length + (src.drop Long.size).length ≤ 2 ^ 64 := by omega
          have happend := overlay_append target.memory addr hbound
          rwa [htake, List.take_append_drop] at happend
        rw [write, write, write, happend]
    . rw [pokeData_of_not_accessible h] at hwrite
      cases hwrite

/--
What has been written is read back, and nothing else has changed.
-/
theorem read_of_write {target target' : Target} {addr : Addr} {buffer : List UInt8}
    (hsize : buffer.length < 2 ^ 64) (hwrite : target.writeProcessMemory addr buffer = (true, target')) :
    (∀ buffer' : List UInt8, buffer'.length = buffer.length →
      target'.readProcessMemory addr buffer' = (true, buffer))
      ∧
    ∀ a : Addr, ¬(a - addr).toNat < buffer.length → target'.memory a = target.memory a := by
  obtain ⟨haccessible, heq⟩ := writeWords_eq target addr _ rfl (Nat.le_of_lt hsize)
    (congrArg Prod.fst hwrite)
  obtain rfl : target.write addr buffer = target' := congrArg Prod.snd (heq.symm.trans hwrite)
  constructor
  . intro buffer' hlength
    have hread := (@readWords_eq (target.write addr buffer) addr _ buffer' rfl).1
    rw [hlength] at hread
    rw [readProcessMemory, hlength, hread haccessible, write, window_overlay _ _ (Nat.le_of_lt hsize)]
  . exact fun a ha => overlay_of_le (Nat.le_of_not_lt ha)

section minusOne

def minusOneBytes : List UInt8 := List.replicate 9 0xff

def openTarget : Target := ⟨fun _ => 0, fun _ => true⟩

theorem read_of_write_minusOne :
    openTarget.writeProcessMemory 0x1000 minusOneBytes
        = (true, (openTarget.writeProcessMemory 0x1000 minusOneBytes).2) ∧
      (openTarget.writeProcessMemory 0x1000 minusOneBytes).2.readProcessMemory 0x1000 (List.replicate 9 0)
        = (true, minusOneBytes) ∧
      (openTarget.writeProcessMemory 0x1000 minusOneBytes).2.memory 0x1009 = 0 := by
  have hwrite : openTarget.writeProcessMemory 0x1000 minusOneBytes
      = (true, (openTarget.writeProcessMemory 0x1000 minusOneBytes).2) := rfl
  obtain ⟨hread, hkept⟩ := read_of_write (by decide) hwrite
  exact ⟨hwrite, hread _ rfl, hkept 0x1009 (by decide)⟩

end minusOne

section mapped

def ofMapped (memory : Memory) (mapped : Addr → Bool) : Target where
  memory := memory
  accessible addr := (List.range Long.size).all fun i => mapped (addr + .ofNat i)

def wordsSize (size : Nat) : Nat := Long.size * ((size + (Long.size - 1)) / Long.size)

theorem accessible_ofMapped (memory : Memory) (mapped : Addr → Bool) (addr : Addr) (size : Nat) :
    (ofMapped memory mapped).Accessible addr size
      ↔
    ∀ i, i < wordsSize size → mapped (addr + .ofNat i) = true := by
  simp only [Accessible, ofMapped, wordsSize, List.all_eq_true, List.mem_range, add_ofNat_add]
  unfold Long.size
  constructor
  . intro h i hi
    have hword := h (i / 8) (by omega) (i % 8) (by omega)
    rwa [Nat.div_add_mod] at hword
  . exact fun h k hk i hi => h _ (by omega)

def ReadsMapped (memory : Memory) (mapped : Addr → Bool) (addr : Addr) (buffer : List UInt8) : Prop :=
  ((ofMapped memory mapped).readProcessMemory addr buffer).1 = true
    ↔
  ∀ i, i < buffer.length → mapped (addr + .ofNat i) = true

/--
The bytes that fill up the last word of a mapped range have to be mapped as well.
-/
theorem readsMapped_iff (memory : Memory) (mapped : Addr → Bool) (addr : Addr) (buffer : List UInt8) :
    ReadsMapped memory mapped addr buffer
      ↔
    ((∀ i, i < buffer.length → mapped (addr + .ofNat i) = true) →
      ∀ i, i < wordsSize buffer.length → mapped (addr + .ofNat i) = true) := by
  have hle : buffer.length ≤ wordsSize buffer.length := by
    unfold wordsSize Long.size
    omega
  rw [ReadsMapped, readProcessMemory_fst, accessible_ofMapped]
  exact ⟨Iff.mpr, fun h => ⟨fun hwords i hi => hwords i (Nat.lt_of_lt_of_le hi hle), h⟩⟩

/-- The last four bytes of a page are not read if the next page is not mapped. -/
theorem exists_unread : ¬∀ (memory : Memory) (mapped : Addr → Bool) (addr : Addr) (buffer : List UInt8),
    ReadsMapped memory mapped addr buffer := by
  intro h
  have hread := (h (fun _ => 0) (fun a => 0x1000 ≤ a && a < 0x2000) 0x1ffc [0, 0, 0, 0]).mpr (by decide)
  revert hread
  decide

end mapped

end Target

end DeadlockInterceptor
