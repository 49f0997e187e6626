import DeadlockInterceptor.Lemmas.Monitoring
import DeadlockInterceptor.Transition.Run

/-!
This module contains what one futex call does to the tracker.
-/

namespace DeadlockInterceptor

namespace GlobalState

variable (s : GlobalState)

def nameOf (e : Event) : ThreadName := (s.threadIdentifier e.env.proc e.tid).1

theorem getThreadName_cached (targetPid : Pid) (proc : ProcFs) (tid : Pid)
    (cache : UMap Pid ThreadInfo) :
    ∃ info, (getThreadName targetPid proc tid cache).2.lookup tid = some info ∧
      info.name = (getThreadName targetPid proc tid cache).1 := by
  unfold getThreadName
  split
  . next info h => exact ⟨info, h, rfl⟩
  . exact ⟨_, AList.lookup_insert _, rfl⟩

theorem getThreadName_of_cached {targetPid : Pid} {proc : ProcFs} {tid : Pid}
    {cache : UMap Pid ThreadInfo} {info : ThreadInfo} (h : cache.lookup tid = some info) :
    getThreadName targetPid proc tid cache = (info.name, cache) := by
  simp only [getThreadName, h]

theorem threadIdentifier_again (proc proc' : ProcFs) (tid : Pid) :
    (s.threadIdentifier proc tid).2.threadIdentifier proc' tid = s.threadIdentifier proc tid := by
  obtain ⟨info, hinfo, hname⟩ := getThreadName_cached s.targetPid proc tid s.threadInfoCache
  simp only [threadIdentifier, getThreadIdentifier]
  rw [getThreadName_of_cached hinfo, hname]

theorem getThreadName_fst_congr {targetPid : Pid} {proc : ProcFs} {tid : Pid}
    {cache cache' : UMap Pid ThreadInfo} (h : cache'.lookup tid = cache.lookup tid) :
    (getThreadName targetPid proc tid cache').1 = (getThreadName targetPid proc tid cache).1 := by
  unfold getThreadName
  rw [h]
  split <;> rfl

theorem threadIdentifier_fst_congr {s s' : GlobalState} (htarget : s'.targetPid = s.targetPid)
    (hcache : s'.threadInfoCache = s.threadInfoCache) (proc : ProcFs) (tid : Pid) :
    (s'.threadIdentifier proc tid).1 = (s.threadIdentifier proc tid).1 := by
  simp only [threadIdentifier, htarget, hcache]

theorem threadIdentifier_fst_threadIdentifier (proc : ProcFs) (tid tid' : Pid) :
    ((s.threadIdentifier proc tid').2.threadIdentifier proc tid).1
      = (s.threadIdentifier proc tid).1 := by
  by_cases htid : tid = tid'
  . subst htid
    rw [threadIdentifier_again]
  . simp only [threadIdentifier, getThreadIdentifier]
    rw [getThreadName_fst_congr]
    unfold getThreadName
    split
    . rfl
    . exact AList.lookup_insert_ne htid

theorem step_of_wait {e : Event} (h : e.call = .wait) :
    s.step e = s.onWait e.env e.tid e.addr := by
  simp only [step, handleSyscall, Event.regs, h]
  rfl

theorem step_of_wake {e : Event} (h : e.call = .wake) :
    s.step e = (s.onWake e.env e.tid e.addr).onLock e.env e.tid e.addr := by
  simp only [step, handleSyscall, Event.regs, h]
  rfl

variable {s}

theorem step_wait_toTracker {e : Event} (h : e.call = .wait) (ha : junkAddr e.addr = false) :
    (s.step e).toTracker = s.toTracker.onWait e.env.now (s.nameOf e) e.addr := by
  rw [step_of_wait s h]
  simp only [onWait, ha]
  rfl

theorem step_wake_toTracker {e : Event} (h : e.call = .wake) (ha : junkAddr e.addr = false) :
    (s.step e).toTracker
      =
    (s.toTracker.onWake e.addr).onLock e.env.now (s.nameOf e) e.addr := by
  rw [step_of_wake s h]
  simp only [onLock, ha, onWake]
  have hagain : ∀ tr, ({ (s.threadIdentifier e.env.proc e.tid).2 with toTracker := tr }).threadIdentifier
      e.env.proc e.tid = (s.nameOf e, { (s.threadIdentifier e.env.proc e.tid).2 with toTracker := tr }) := by
    intro tr
    have := congrArg (fun p => (p.1, { p.2 with toTracker := tr }))
      (threadIdentifier_again s e.env.proc e.env.proc e.tid)
    exact this
  simp only [Bool.false_eq_true, ↓reduceIte]
  rw [hagain]
  rfl

theorem step_junk_toTracker {e : Event} (ha : junkAddr e.addr = true) :
    (s.step e).toTracker
      =
    match e.call with
    | .wait => s.toTracker
    | .wake => s.toTracker.onWake e.addr := by
  split
  . next h =>
    rw [step_of_wait s h]
    simp only [onWait, ha, ↓reduceIte]
  . next h =>
    rw [step_of_wake s h]
    simp only [onLock, ha, ↓reduceIte]
    rfl

def NoJunkWaiters (s : GlobalState) : Prop := ∀ a, junkAddr a = true → s.waiters a = []

/--
What a futex call can do to the tracker: a wait and a wake of a plausible address have their effects,
a call with an implausible address changes nothing that can be looked up.
-/
theorem step_cases (hs : s.NoJunkWaiters) (e : Event) :
    (e.call = .wait ∧ junkAddr e.addr = false ∧
      (s.step e).toTracker = s.toTracker.onWait e.env.now (s.nameOf e) e.addr) ∨
    (e.call = .wake ∧ junkAddr e.addr = false ∧
      (s.step e).toTracker
        =
      (s.toTracker.onWake e.addr).onLock e.env.now (s.nameOf e) e.addr) ∨
    (junkAddr e.addr = true ∧ (∀ b, (s.step e).waiters b = s.waiters b) ∧
      (s.step e).waitsFor = s.waitsFor ∧ (s.step e).threadLocks = s.threadLocks ∧
      (s.step e).lockOwners = s.lockOwners) := by
  cases ha : junkAddr e.addr with
  | false =>
    cases h : e.call with
    | wait => exact .inl ⟨rfl, rfl, step_wait_toTracker h ha⟩
    | wake => exact .inr (.inl ⟨rfl, rfl, step_wake_toTracker h ha⟩)
  | true =>
    refine .inr (.inr ⟨rfl, ?_⟩)
    rw [step_junk_toTracker ha]
    split
    . simp
    . refine ⟨?_, by simp, by simp, by simp⟩
      intro b
      rw [Tracker.onWake_waiters]
      split
      . next hb =>
        subst hb
        exact (hs e.addr ha).symm
      . rfl

theorem noJunkWaiters_init : init.NoJunkWaiters := fun _ _ => rfl

theorem noJunkWaiters_step (s : GlobalState) (e : Event) (hs : s.NoJunkWaiters) :
    (s.step e).NoJunkWaiters := by
  intro a ha
  have hne : junkAddr e.addr = false → a ≠ e.addr := by
    rintro h rfl
    simp [ha] at h
  obtain ⟨-, hj, heq⟩ | ⟨-, hj, heq⟩ | ⟨-, heq, -⟩ := step_cases hs e
  . rw [heq]
    simp [hne hj, hs a ha]
  . rw [heq]
    simp [hne hj, hs a ha]
  . rw [heq, hs a ha]

section shrink

variable {env : Env} {tid : Pid} {a : Addr}

theorem onLock_waits_le : (s.onLock env tid a).Waits ≤ s.Waits := by
  intro t u h
  unfold onLock at h
  split at h
  . exact h
  . apply And.right
    apply (Tracker.onLock_waits _ _ _ _ _ _).mp
    exact h

theorem onWake_waits_le : (s.onWake env tid a).Waits ≤ s.Waits := by
  intro t u h
  apply (Tracker.onWake_waits _ a _ _).mp
  exact h

theorem onLock_waiters_subset (b : Addr) : (s.onLock env tid a).waiters b ⊆ s.waiters b := by
  unfold onLock
  split
  . apply List.Subset.refl
  . intro t h
    apply List.mem_of_mem_filter
    exact Tracker.onLock_waiters _ _ _ _ b ▸ h

theorem onWake_waiters_subset (b : Addr) : (s.onWake env tid a).waiters b ⊆ s.waiters b := by
  intro t h
  have hmem : t ∈ (s.toTracker.onWake a).waiters b := h
  rw [Tracker.onWake_waiters] at hmem
  split at hmem
  . simp at hmem
  . exact hmem

end shrink

end GlobalState

end DeadlockInterceptor
