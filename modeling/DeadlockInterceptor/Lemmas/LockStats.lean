import DeadlockInterceptor.Lemmas.Step

/-!
This module contains when the copies in `lock_stats` follow the tracker. A wait and a wake refresh the entry
of their own address. The removal of the waker from the waiters of every address in `on_lock` is the one
change that reaches other entries, and it is followed by a refresh of one entry only.
-/

namespace DeadlockInterceptor

structure LockStats.Mirrors (stats : LockStats) (s : Tracker) (a : Addr) : Prop where
  currentOwner : s.owner a = some stats.currentOwner
  waitersCount : stats.waitersCount = (s.waiters a).length
  waitingThreads : stats.waitingThreads = s.waiters a

theorem LockStats.Mirrors.congr {stats : LockStats} {s s' : Tracker} {a : Addr}
    (h : stats.Mirrors s a) (howner : s'.owner a = s.owner a) (hwaiters : s'.waiters a = s.waiters a) :
    stats.Mirrors s' a := by
  constructor
  . rw [howner]
    exact h.currentOwner
  . rw [hwaiters]
    exact h.waitersCount
  . rw [hwaiters]
    exact h.waitingThreads

namespace Tracker

def StatsMirror (s : Tracker) : Prop :=
  ∀ a stats, s.lockStats.lookup a = some stats → stats.Mirrors s a

theorem statsMirror_empty : Tracker.empty.StatsMirror := by
  intro a stats h
  exact absurd h (by simp [Tracker.empty])

variable (s : Tracker) (now : Time) (t : ThreadName) (a : Addr)

section lookup

theorem refreshLockStats_lookup (b : Addr) :
    (s.refreshLockStats a).lockStats.lookup b
      =
    if b = a then
      (s.lockStats.lookup a).map fun stats =>
        { stats with waitersCount := (s.waiters a).length, waitingThreads := s.waiters a }
    else
      s.lockStats.lookup b := by
  unfold refreshLockStats
  split
  . next stats h =>
    rw [AList.lookup_insert_eq, h]
    rfl
  . next h =>
    rw [h]
    split
    . next hb =>
      subst hb
      exact h
    . rfl

theorem updateLockStats_lookup_ne {b : Addr} (hb : b ≠ a) :
    (s.updateLockStats now a t).lockStats.lookup b = s.lockStats.lookup b := by
  simp only [updateLockStats]
  split <;> exact AList.lookup_insert_ne hb

theorem updateLockStats_mirrors (howner : s.owner a = some t) {stats : LockStats}
    (h : (s.updateLockStats now a t).lockStats.lookup a = some stats) : stats.Mirrors s a := by
  have htouch : ({ s with futexWaiters := s.futexWaiters.touch a [] } : Tracker).waiters a = s.waiters a := by
    apply AList.getD_touch
  simp only [updateLockStats] at h
  split at h
  . rw [AList.lookup_insert] at h
    cases h
    exact ⟨howner, congrArg List.length htouch, htouch⟩
  . rw [AList.lookup_insert] at h
    cases h
    exact ⟨howner, congrArg List.length htouch, htouch⟩

end lookup

variable {s}

theorem StatsMirror.refreshLockStats {s' : Tracker} (h : s.StatsMirror)
    (hstats : s'.lockStats = s.lockStats) (howner : s'.lockOwners = s.lockOwners)
    (hwaiters : ∀ b, b ≠ a → s'.waiters b = s.waiters b) :
    (s'.refreshLockStats a).StatsMirror := by
  have hown : ∀ b, (s'.refreshLockStats a).owner b = s.owner b := by
    intro b
    simp only [owner, refreshLockStats_lockOwners, howner]
  intro b stats hb
  rw [refreshLockStats_lookup, hstats] at hb
  split at hb
  . next hba =>
    subst hba
    obtain ⟨old, hold, rfl⟩ := Option.map_eq_some_iff.mp hb
    constructor
    . rw [hown]
      exact (h b old hold).currentOwner
    . rw [refreshLockStats_waiters]
    . rw [refreshLockStats_waiters]
  . next hba =>
    apply (h b stats hb).congr
    . exact hown b
    . rw [refreshLockStats_waiters]
      exact hwaiters b hba

theorem StatsMirror.onWait (h : s.StatsMirror) : (s.onWait now t a).StatsMirror := by
  unfold Tracker.onWait
  apply h.refreshLockStats
  . simp
  . simp
  . intro b hb
    rw [addWaitEdge_waiters]
    exact (AList.getD_insert s.futexWaiters a b _ []).trans (if_neg hb)

theorem StatsMirror.onWake (h : s.StatsMirror) : (s.onWake a).StatsMirror := by
  unfold Tracker.onWake
  split
  . exact h
  . apply h.refreshLockStats
    . rfl
    . rfl
    . intro b hb
      exact (AList.getD_erase s.futexWaiters a b []).trans (if_neg hb)

theorem statsMirror_onLock_iff (h : s.StatsMirror) :
    (s.onLock now t a).StatsMirror ↔ ∀ b, b ≠ a → b ∈ s.lockStats → t ∉ s.waiters b := by
  constructor
  . intro hlock b hba hb ht
    obtain ⟨stats, hstats⟩ := AList.lookup_of_mem hb
    have hafter : (s.onLock now t a).lockStats.lookup b = some stats := by
      rw [onLock, updateLockStats_lookup_ne _ _ _ _ hba]
      exact hstats
    have hcopy : s.waiters b = (s.onLock now t a).waiters b := by
      rw [← (hlock b stats hafter).waitingThreads, (h b stats hstats).waitingThreads]
    rw [hcopy, onLock_waiters] at ht
    simpa using List.of_mem_filter ht
  . intro hfree b stats hb
    by_cases hba : b = a
    . subst hba
      unfold onLock at hb
      apply (updateLockStats_mirrors _ now t b _ hb).congr
      . simp [owner, onLock]
      . rw [onLock, updateLockStats_waiters]
      . exact AList.lookup_insert s.lockOwners
    . rw [onLock, updateLockStats_lookup_ne _ _ _ _ hba] at hb
      apply (h b stats hb).congr
      . rw [onLock_owner, if_neg hba]
      . have hnot : t ∉ s.waiters b := hfree b hba (AList.lookup_isSome.mp (by simp [hb]))
        rw [onLock_waiters, List.filter_eq_self]
        intro x hx
        simpa using ne_of_mem_of_not_mem hx hnot

end Tracker

namespace GlobalState

variable {s : GlobalState}

def KeepsStats (s : GlobalState) (e : Event) : Prop :=
  e.call = .wake → junkAddr e.addr = false →
    ∀ b, b ≠ e.addr → b ∈ s.lockStats → s.nameOf e ∉ s.waiters b

theorem mem_lockStats_onWake {s : Tracker} {a b : Addr} (hba : b ≠ a) :
    b ∈ (s.onWake a).lockStats ↔ b ∈ s.lockStats := by
  unfold Tracker.onWake
  split
  . rfl
  . rw [← AList.lookup_isSome, Tracker.refreshLockStats_lookup, if_neg hba, AList.lookup_isSome]

theorem statsMirror_step_iff (h : s.toTracker.StatsMirror) (e : Event) :
    (s.step e).toTracker.StatsMirror ↔ s.KeepsStats e := by
  cases ha : junkAddr e.addr with
  | true =>
    apply iff_of_true
    . rw [step_junk_toTracker ha]
      split
      . exact h
      . exact h.onWake e.addr
    . simp [KeepsStats, ha]
  | false =>
    cases hcall : e.call with
    | wait =>
      apply iff_of_true
      . rw [step_wait_toTracker hcall ha]
        exact h.onWait _ _ _
      . simp [KeepsStats, hcall]
    | wake =>
      rw [step_wake_toTracker hcall ha, Tracker.statsMirror_onLock_iff _ _ _ (h.onWake e.addr)]
      have hother : ∀ b, b ≠ e.addr →
          ((b ∈ (s.toTracker.onWake e.addr).lockStats → s.nameOf e ∉ (s.toTracker.onWake e.addr).waiters b)
            ↔
          (b ∈ s.lockStats → s.nameOf e ∉ s.waiters b)) := by
        intro b hb
        rw [mem_lockStats_onWake hb, Tracker.onWake_waiters, if_neg hb]
      constructor
      . intro hfree _ _ b hb
        exact (hother b hb).mp (hfree b hb)
      . intro hkeep b hb
        exact (hother b hb).mpr (hkeep hcall ha b hb)

/--
The statistics mirror the tracker in all states of a run exactly if no thread takes a lock while it is
registered as a waiter of another lock with statistics.
-/
theorem statsMirror_run_iff (evs : List Event) :
    Run.States step (fun s => s.toTracker.StatsMirror) init evs ↔ Run.Steps step KeepsStats init evs := by
  apply Run.states_iff_steps (J := fun _ => True)
  . exact fun _ _ _ => trivial
  . exact fun _ e _ h => statsMirror_step_iff h e
  . trivial
  . exact Tracker.statsMirror_empty

theorem exists_staleStats : ¬∀ evs, (run evs).toTracker.StatsMirror := by
  intro h
  have hmirror := h
    [⟨.wake, 2, 0x10000, .bare⟩, ⟨.wait, 1, 0x10000, .bare⟩, ⟨.wake, 1, 0x10010, .bare⟩] 0x10000
  have hstats := hmirror _ rfl
  exact absurd hstats.waitersCount (by decide)

end GlobalState

end DeadlockInterceptor
