import DeadlockInterceptor.Impl.Monitoring

/-!
This module contains what the handlers of the tracker do to each of the maps, stated over the lookups
`waiters`, `Waits`, `Held` and `owner`.
-/

namespace DeadlockInterceptor

namespace Tracker

variable (s : Tracker) (now : Time) (t : ThreadName) (a : Addr)

theorem exists_entry_of_mem_waiters {s : Tracker} {t : ThreadName} {a : Addr}
    (h : t ∈ s.waiters a) : ∃ l, ⟨a, l⟩ ∈ s.futexWaiters.entries ∧ t ∈ l := by
  unfold waiters AList.getD at h
  cases hl : s.futexWaiters.lookup a with
  | none => simp [hl] at h
  | some l =>
    rw [hl] at h
    exact ⟨l, AList.mem_lookup_iff.mp hl, h⟩

section updateLockStats

@[simp]
theorem updateLockStats_waiters (b : Addr) :
    (s.updateLockStats now a t).waiters b = s.waiters b := by
  simp only [updateLockStats]
  split <;> simp [waiters]

@[simp]
theorem updateLockStats_waitsFor : (s.updateLockStats now a t).waitsFor = s.waitsFor := by
  simp only [updateLockStats]
  split <;> rfl

@[simp]
theorem updateLockStats_threadLocks :
    (s.updateLockStats now a t).threadLocks = s.threadLocks := by
  simp only [updateLockStats]
  split <;> rfl

@[simp]
theorem updateLockStats_lockOwners : (s.updateLockStats now a t).lockOwners = s.lockOwners := by
  simp only [updateLockStats]
  split <;> rfl

end updateLockStats

section onLock

@[simp]
theorem onLock_waiters (b : Addr) :
    (s.onLock now t a).waiters b = (s.waiters b).filter (· ≠ t) := by
  simp only [onLock, updateLockStats_waiters]
  exact AList.getD_mapVal (List.filter (· ≠ t)) s.futexWaiters b []

@[simp]
theorem onLock_waits (x u : ThreadName) : (s.onLock now t a).Waits x u ↔ u ≠ t ∧ s.Waits x u := by
  have := AList.getD_mapVal (USet.erase · t) s.waitsFor x ∅
  have hempty : USet.erase (∅ : USet ThreadName) t = ∅ := rfl
  rw [hempty] at this
  simp only [Waits, onLock, updateLockStats_waitsFor]
  rw [this, USet.mem_erase]

@[simp]
theorem onLock_owner (b : Addr) :
    (s.onLock now t a).owner b = if b = a then some t else s.owner b := by
  simp only [owner, onLock, updateLockStats_lockOwners]
  exact AList.lookup_insert_eq s.lockOwners a b t

@[simp]
theorem onLock_held (x : ThreadName) (b : Addr) :
    (s.onLock now t a).Held x b ↔ (x = t ∧ b = a) ∨ s.Held x b := by
  simp only [Held, onLock, updateLockStats_threadLocks, AList.getD_insert]
  split
  . next h =>
    subst h
    simp
  . next h => simp [h]

end onLock

section onWait

@[simp]
theorem addWaitEdge_waiters (b : Addr) : (s.addWaitEdge t a).waiters b = s.waiters b := by
  unfold addWaitEdge
  split
  . split <;> rfl
  . rfl

@[simp]
theorem addWaitEdge_futexWaiters : (s.addWaitEdge t a).futexWaiters = s.futexWaiters := by
  unfold addWaitEdge
  split
  . split <;> rfl
  . rfl

@[simp]
theorem addWaitEdge_lockOwners : (s.addWaitEdge t a).lockOwners = s.lockOwners := by
  unfold addWaitEdge
  split
  . split <;> rfl
  . rfl

@[simp]
theorem addWaitEdge_threadLocks : (s.addWaitEdge t a).threadLocks = s.threadLocks := by
  unfold addWaitEdge
  split
  . split <;> rfl
  . rfl

@[simp]
theorem addWaitEdge_lockStats : (s.addWaitEdge t a).lockStats = s.lockStats := by
  unfold addWaitEdge
  split
  . split <;> rfl
  . rfl

theorem addWaitEdge_waits (x u : ThreadName) :
    (s.addWaitEdge t a).Waits x u ↔ s.Waits x u ∨ (x = t ∧ s.owner a = some u ∧ u ≠ t) := by
  unfold addWaitEdge
  split
  . next o ho =>
    split
    . next hne =>
      simp only [Waits, AList.getD_insert, owner, ho, Option.some.injEq]
      split
      . next hx =>
        subst hx
        rw [USet.mem_insert]
        constructor
        . rintro (rfl | h)
          . exact .inr ⟨rfl, rfl, hne⟩
          . exact .inl h
        . rintro (h | ⟨-, rfl, -⟩)
          . exact .inr h
          . exact .inl rfl
      . next hx => simp [hx]
    . next hne =>
      simp only [ne_eq, Decidable.not_not] at hne
      subst hne
      simp only [owner, ho, Option.some.injEq]
      constructor
      . exact .inl
      . rintro (h | ⟨-, rfl, h⟩)
        . exact h
        . exact absurd rfl h
  . next ho =>
    simp only [owner, ho]
    simp

@[simp]
theorem refreshLockStats_waiters (b : Addr) : (s.refreshLockStats a).waiters b = s.waiters b := by
  unfold refreshLockStats
  split <;> rfl

@[simp]
theorem refreshLockStats_waitsFor : (s.refreshLockStats a).waitsFor = s.waitsFor := by
  unfold refreshLockStats
  split <;> rfl

@[simp]
theorem refreshLockStats_lockOwners : (s.refreshLockStats a).lockOwners = s.lockOwners := by
  unfold refreshLockStats
  split <;> rfl

@[simp]
theorem refreshLockStats_threadLocks : (s.refreshLockStats a).threadLocks = s.threadLocks := by
  unfold refreshLockStats
  split <;> rfl

@[simp]
theorem onWait_waiters (b : Addr) :
    (s.onWait now t a).waiters b = if b = a then s.waiters a ++ [t] else s.waiters b := by
  simp only [onWait, refreshLockStats_waiters, addWaitEdge_waiters]
  exact AList.getD_insert s.futexWaiters a b _ []

@[simp]
theorem onWait_waits (x u : ThreadName) :
    (s.onWait now t a).Waits x u ↔ s.Waits x u ∨ (x = t ∧ s.owner a = some u ∧ u ≠ t) := by
  simp only [onWait]
  have := fun s' : Tracker => iff_of_eq (congrArg (u ∈ ·.getD x ∅) (refreshLockStats_waitsFor s' a))
  rw [Waits, this]
  exact addWaitEdge_waits _ t a x u

@[simp]
theorem onWait_owner (b : Addr) : (s.onWait now t a).owner b = s.owner b := by
  simp [owner, onWait]

@[simp]
theorem onWait_held (x : ThreadName) (b : Addr) : (s.onWait now t a).Held x b ↔ s.Held x b := by
  simp [Held, onWait]

end onWait

section onWake

@[simp]
theorem onWake_waiters (b : Addr) : (s.onWake a).waiters b = if b = a then [] else s.waiters b := by
  unfold onWake
  split
  . next h =>
    split
    . next hb =>
      subst hb
      simp [waiters, AList.getD, h]
    . rfl
  . rw [refreshLockStats_waiters]
    exact AList.getD_erase s.futexWaiters a b []

@[simp]
theorem onWake_waitsFor : (s.onWake a).waitsFor = s.waitsFor := by
  unfold onWake
  split
  . rfl
  . simp

@[simp]
theorem onWake_lockOwners : (s.onWake a).lockOwners = s.lockOwners := by
  unfold onWake
  split
  . rfl
  . simp

@[simp]
theorem onWake_threadLocks : (s.onWake a).threadLocks = s.threadLocks := by
  unfold onWake
  split
  . rfl
  . simp

@[simp]
theorem onWake_waits (x u : ThreadName) : (s.onWake a).Waits x u ↔ s.Waits x u := by
  simp [Waits]

@[simp]
theorem onWake_owner (b : Addr) : (s.onWake a).owner b = s.owner b := by
  simp [owner]

@[simp]
theorem onWake_held (x : ThreadName) (b : Addr) : (s.onWake a).Held x b ↔ s.Held x b := by
  simp [Held]

end onWake

end Tracker

end DeadlockInterceptor
