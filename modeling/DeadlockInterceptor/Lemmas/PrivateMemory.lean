import DeadlockInterceptor.Bytes.Align
import DeadlockInterceptor.Impl.PrivateMemory

/-!
This module contains which faults belong to a guarded page, and what the handler does with them. The regions are
aligned with a mask and the faults with a division, which is the same for a power of two.
-/

namespace DeadlockInterceptor

section align

variable (page : PageSize)

theorem toNat_size : page.size.toNat = 2 ^ page.log :=
  Align.toNat_two_pow (Nat.lt_of_lt_of_le page.log_lt (by decide))

theorem lockRegion_start (lockAddr : UInt64) : (lockRegion page lockAddr).start = pageStart page lockAddr :=
  Align.and_not_eq_div_mul lockAddr (Nat.lt_of_lt_of_le page.log_lt (by decide))

theorem toNat_pageStart (addr : Addr) :
    (pageStart page addr).toNat = addr.toNat / 2 ^ page.log * 2 ^ page.log :=
  Align.toNat_div_mul addr (Nat.lt_of_lt_of_le page.log_lt (by decide))

theorem pageStart_pageStart (addr : Addr) : pageStart page (pageStart page addr) = pageStart page addr := by
  rw [← UInt64.toNat_inj, toNat_pageStart, toNat_pageStart, Nat.mul_div_cancel _ (Nat.two_pow_pos page.log)]

theorem lockRegion_endAddr (lockAddr : UInt64) :
    (lockRegion page lockAddr).endAddr = pageStart page lockAddr + page.size := by
  rw [← lockRegion_start]
  rfl

theorem eq_of_mem_lockRegion {lockAddr addr : UInt64}
    (hstart : (lockRegion page lockAddr).start ≤ pageStart page addr)
    (hend : pageStart page addr < (lockRegion page lockAddr).endAddr) :
    pageStart page lockAddr = pageStart page addr := by
  rw [lockRegion_start, UInt64.le_iff_toNat_le, toNat_pageStart, toNat_pageStart] at hstart
  rw [lockRegion_endAddr, UInt64.lt_iff_toNat_lt, UInt64.toNat_add, toNat_pageStart, toNat_pageStart,
    toNat_size] at hend
  rw [← UInt64.toNat_inj, toNat_pageStart, toNat_pageStart]
  have hlt := Nat.lt_of_lt_of_le hend (Nat.mod_le _ _)
  rw [← Nat.succ_mul] at hlt
  have hpos := Nat.two_pow_pos page.log
  have hle := Nat.le_of_mul_le_mul_right hstart hpos
  have hge := Nat.lt_of_mul_lt_mul_right hlt
  rw [Nat.le_antisymm hle (Nat.le_of_lt_succ hge)]

theorem mem_lockRegion {lockAddr : UInt64} (huser : lockAddr ≤ 0x7fffffffffff) :
    (lockRegion page lockAddr).start ≤ pageStart page lockAddr ∧
      pageStart page lockAddr < (lockRegion page lockAddr).endAddr := by
  rw [lockRegion_start, lockRegion_endAddr]
  refine ⟨UInt64.le_refl _, ?_⟩
  have hle : lockAddr.toNat ≤ 0x7fffffffffff := UInt64.le_iff_toNat_le.mp huser
  have hstart : lockAddr.toNat / 2 ^ page.log * 2 ^ page.log ≤ lockAddr.toNat := Nat.div_mul_le_self _ _
  have hpos := Nat.two_pow_pos page.log
  have hsize : 2 ^ page.log ≤ 2 ^ 62 := Nat.pow_le_pow_right (by decide) (Nat.le_of_lt_succ page.log_lt)
  rw [UInt64.lt_iff_toNat_lt, UInt64.toNat_add, toNat_pageStart, toNat_size, Nat.mod_eq_of_lt (by omega)]
  omega

theorem pageStart_eq_iff {addr addr' : Addr} :
    pageStart page addr = pageStart page addr' ↔ addr / page.size = addr' / page.size := by
  constructor
  . intro h
    rw [← UInt64.toNat_inj, toNat_pageStart, toNat_pageStart] at h
    rw [← UInt64.toNat_inj, UInt64.toNat_div, UInt64.toNat_div, toNat_size]
    exact Nat.mul_right_cancel (Nat.two_pow_pos page.log) h
  . intro h
    rw [pageStart, pageStart, h]

end align

structure GuardEnv.Succeeds (env : GuardEnv) : Prop where
  sigaction : env.sigaction = true
  mprotect : ∀ k, env.mprotect k = true

namespace ShadowMemory

variable {page : PageSize} {env : GuardEnv} {m : ShadowMemory}

section recognize

theorem protectedRegions_guardLocks {mprotect : Nat → Bool} (hmprotect : ∀ k, mprotect k = true) (k : Nat)
    (locks : List UInt64) :
    (guardLocks page mprotect k locks m).2.protectedRegions = m.protectedRegions ++ locks.map (lockRegion page) := by
  induction locks generalizing k m with
  | nil => exact (List.append_nil _).symm
  | cons lockAddr locks ih =>
    rw [guardLocks, if_pos (hmprotect k)]
    change (guardLocks page mprotect (k + 1) locks (m.guard (lockRegion page lockAddr))).2.protectedRegions = _
    rw [ih, guard, List.append_assoc, List.map_cons, List.singleton_append]

theorem shouldDuplicatePage_eq_true_iff {addr : Addr} :
    m.shouldDuplicatePage addr = true
      ↔
    ∃ region ∈ m.protectedRegions, region.start ≤ addr ∧ addr < region.endAddr := by
  simp only [shouldDuplicatePage, List.any_eq_true, Bool.and_eq_true, decide_eq_true_eq, ge_iff_le]

/--
The handler takes a fault for one of a guarded page exactly if a lock of the list lies in this page.
-/
theorem shouldDuplicatePage_iff (page : PageSize) (locks : List UInt64) (hsucceeds : env.Succeeds)
    (huser : ∀ lockAddr ∈ locks, lockAddr ≤ 0x7fffffffffff) (hempty : m.protectedRegions = []) (faultAddr : Addr) :
    (initializePrivateMemory page env locks m).2.shouldDuplicatePage (pageStart page faultAddr) = true
      ↔
    ∃ lockAddr ∈ locks, lockAddr / page.size = faultAddr / page.size := by
  have hinit : initializePrivateMemory page env locks m = guardLocks page env.mprotect 0 locks m := by
    rw [initializePrivateMemory, hsucceeds.sigaction]
    rfl
  rw [shouldDuplicatePage_eq_true_iff, hinit, protectedRegions_guardLocks hsucceeds.mprotect, hempty,
    List.nil_append]
  constructor
  . rintro ⟨region, hregion, hstart, hend⟩
    obtain ⟨lockAddr, hmem, rfl⟩ := List.mem_map.mp hregion
    exact ⟨lockAddr, hmem, (pageStart_eq_iff page).mp (eq_of_mem_lockRegion page hstart hend)⟩
  . rintro ⟨lockAddr, hmem, heq⟩
    rw [← pageStart_eq_iff] at heq
    rw [← heq]
    exact ⟨_, List.mem_map_of_mem hmem, mem_lockRegion page (huser lockAddr hmem)⟩

def pageSize4096 : PageSize := ⟨12, by decide⟩

theorem shouldDuplicatePage_iff_4096 :
    (initializePrivateMemory pageSize4096 ⟨true, fun _ => true⟩ [0x7f0000001234, 0x7f0000003008]
        ⟨fun _ => 0, fun _ => false, []⟩).2.shouldDuplicatePage (pageStart pageSize4096 0x7f0000002fff) = true
      ↔
    ∃ lockAddr ∈ [(0x7f0000001234 : UInt64), 0x7f0000003008],
      lockAddr / pageSize4096.size = 0x7f0000002fff / pageSize4096.size :=
  shouldDuplicatePage_iff pageSize4096 [0x7f0000001234, 0x7f0000003008] ⟨rfl, fun _ => rfl⟩
    (fun _ h => by rcases List.mem_pair.mp h with rfl | rfl <;> decide) rfl 0x7f0000002fff

end recognize

section guarded

def Guarded (page : PageSize) (m : ShadowMemory) : Prop :=
  ∀ region ∈ m.protectedRegions,
    (∃ lockAddr, region = lockRegion page lockAddr) ∧ m.protNone region.start = true

theorem Guarded.guard (h : Guarded page m) (lockAddr : UInt64) :
    Guarded page (m.guard (lockRegion page lockAddr)) := by
  intro region hregion
  rcases List.mem_append.mp hregion with hold | hnew
  . obtain ⟨hlock, hprot⟩ := h region hold
    exact ⟨hlock, Bool.or_eq_true_iff.mpr (.inr hprot)⟩
  . obtain rfl := List.mem_singleton.mp hnew
    refine ⟨⟨lockAddr, rfl⟩, Bool.or_eq_true_iff.mpr (.inl (decide_eq_true ?_))⟩
    rw [sub_self, lockRegion_endAddr, lockRegion_start, add_sub_cancel_left, UInt64.lt_iff_toNat_lt, toNat_size]
    exact Nat.two_pow_pos page.log

theorem Guarded.guardLocks (h : Guarded page m) (mprotect : Nat → Bool) (k : Nat) (locks : List UInt64) :
    Guarded page (guardLocks page mprotect k locks m).2 := by
  induction locks generalizing k m with
  | nil => exact h
  | cons lockAddr locks ih =>
    rw [ShadowMemory.guardLocks]
    split
    . exact ih (h.guard lockAddr) (k + 1)
    . exact ih h (k + 1)

theorem guarded_initializePrivateMemory (page : PageSize) (env : GuardEnv) (locks : List UInt64)
    (hempty : m.protectedRegions = []) : Guarded page (initializePrivateMemory page env locks m).2 := by
  have hguarded : Guarded page m := by
    intro region hregion
    rw [hempty] at hregion
    cases hregion
  unfold initializePrivateMemory
  split
  . exact hguarded
  . exact hguarded.guardLocks env.mprotect 0 locks

theorem Guarded.protNone (h : Guarded page m) {faultAddr : Addr}
    (hduplicate : m.shouldDuplicatePage (pageStart page faultAddr) = true) :
    m.protNone (pageStart page faultAddr) = true := by
  obtain ⟨region, hregion, hstart, hend⟩ := shouldDuplicatePage_eq_true_iff.mp hduplicate
  obtain ⟨⟨lockAddr, rfl⟩, hprot⟩ := h region hregion
  rwa [lockRegion_start, eq_of_mem_lockRegion page hstart hend] at hprot

end guarded

end ShadowMemory

end DeadlockInterceptor
