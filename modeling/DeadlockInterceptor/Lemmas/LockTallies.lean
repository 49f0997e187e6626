import DeadlockInterceptor.Lemmas.LockStats
import DeadlockInterceptor.Lemmas.WrittenBytes

/-!
This module contains what `lock_stats` counts in a run of the loop of `main`: an entry follows the wakes of its
futex, and none of the resolutions in between has an effect on it.
-/

namespace DeadlockInterceptor

/-- The fields that a lock sets. The other two are copies of the waiters. -/
def LockStats.tally (stats : LockStats) : Addr × ThreadName × Nat × Time × Time :=
  (stats.lockAddress, stats.currentOwner, stats.totalAcquisitions, stats.firstSeenTime, stats.lastAcquireTime)

namespace Tracker

variable (s : Tracker) (now : Time) (t : ThreadName) (a b : Addr)

def tally : Option (Addr × ThreadName × Nat × Time × Time) := (s.lockStats.lookup a).map LockStats.tally

theorem refreshLockStats_tally : (s.refreshLockStats a).tally b = s.tally b := by
  rw [tally, refreshLockStats_lookup]
  split
  . next hb =>
    rw [tally, hb, Option.map_map]
    rfl
  . rfl

theorem onWait_tally : (s.onWait now t a).tally b = s.tally b := by
  rw [onWait, refreshLockStats_tally, tally, addWaitEdge_lockStats]
  rfl

theorem onWake_tally : (s.onWake a).tally b = s.tally b := by
  unfold onWake
  split
  . rfl
  . rw [refreshLockStats_tally]
    rfl

theorem onLock_tally_of_ne (hb : b ≠ a) : (s.onLock now t a).tally b = s.tally b := by
  rw [tally, onLock, updateLockStats_lookup_ne _ _ _ _ hb]
  rfl

theorem onLock_tally_of_none (h : s.tally a = none) : (s.onLock now t a).tally a = some (a, t, 1, now, now) := by
  rw [tally, Option.map_eq_none_iff] at h
  simp only [tally, onLock, updateLockStats, h, AList.lookup_insert]
  rfl

theorem onLock_tally_of_some {addr : Addr} {owner : ThreadName} {n : Nat} {first last : Time}
    (h : s.tally a = some (addr, owner, n, first, last)) :
    (s.onLock now t a).tally a = some (addr, t, n + 1, first, now) := by
  obtain ⟨stats, hstats, htally⟩ := Option.map_eq_some_iff.mp h
  simp only [LockStats.tally, Prod.mk.injEq] at htally
  obtain ⟨rfl, -, rfl, rfl, -⟩ := htally
  simp only [tally, onLock, updateLockStats, hstats, AList.lookup_insert]
  rfl

end Tracker

section handleSyscall

variable {env : Env} {tid : Pid} {s : GlobalState} {a : Addr}

theorem tally_handleSyscall_of_not_wakes {regs : Option Regs} (h : ¬∃ r ∈ regs, r.Wakes a) :
    (handleSyscall env tid regs s).tally a = s.tally a := by
  have hwait : ∀ addr, (s.onWait env tid addr).tally a = s.tally a := by
    intro addr
    unfold GlobalState.onWait
    split
    . rfl
    . apply Tracker.onWait_tally
  unfold handleSyscall
  cases regs with
  | none => rfl
  | some regs =>
    simp only
    split_ifs with hsys _ hop
    . apply hwait
    . unfold GlobalState.onLock
      split
      . apply Tracker.onWake_tally
      . next hjunk =>
        have hne : a ≠ regs.rdi := by
          rintro rfl
          refine h ⟨regs, rfl, ?_, rfl, Bool.not_eq_true _ ▸ hjunk⟩
          simp [Regs.isFutexOp, hsys, hop]
        exact (Tracker.onLock_tally_of_ne _ _ _ _ _ hne).trans (Tracker.onWake_tally _ _ _)
    . apply hwait
    . rfl
    . rfl

theorem exists_handleSyscall_of_wakes (env : Env) (tid : Pid) (s : GlobalState) {regs : Regs}
    (h : regs.Wakes a) :
    ∃ (name : Str) (tracker : Tracker), tracker.tally a = s.tally a ∧
      (handleSyscall env tid (some regs) s).tally a = (tracker.onLock env.now (identifierOf name tid) a).tally a := by
  obtain ⟨hop, rfl, hjunk⟩ := h
  simp only [Regs.isFutexOp, Bool.and_eq_true, decide_eq_true_eq] at hop
  let woken := s.onWake env tid regs.rdi
  refine ⟨(getThreadName woken.targetPid env.proc tid woken.threadInfoCache).1, s.toTracker.onWake regs.rdi,
    Tracker.onWake_tally _ _ _, ?_⟩
  simp only [handleSyscall, hop, GlobalState.onLock, hjunk]
  rfl

end handleSyscall

namespace World

theorem resolveThreadDeadlock_lockStats (env : ResolveEnv) (cycle : List ThreadName) (w : World) :
    (w.resolveThreadDeadlock env cycle).2.lockStats = w.lockStats := by
  apply resolveThreadDeadlock_rule (I := fun w' => w'.lockStats = w.lockStats)
  . intro deadlock w' h
    rcases resolveDeadlockStrategy1_cases env.strategy1 deadlock w' with
      ⟨e, -, heq⟩ | ⟨memory, heq⟩ | ⟨victim, tid, run, status, -, -, -, -, heq⟩
    . rw [heq]
      exact h
    . rw [heq]
      exact h
    . rw [heq]
      exact h
  . intro deadlock w' h
    unfold emergencyDeadlockBreak
    split
    . exact h
    . exact h
    . exact h
  . exact fun _ _ _ h => h
  . rfl

end World

namespace MainState

def wakes (envs : List TurnEnv) (a : Addr) : List TurnEnv := envs.filter fun env => env.Wakes a

def Counts (a : Addr) (wakes : List TurnEnv) (s : Tracker) : Prop :=
  (wakes = [] ∧ s.tally a = none) ∨
    ∃ first last name, wakes.head? = some first ∧ wakes.getLast? = some last ∧
      s.tally a = some (a, identifierOf name last.tid, wakes.length, first.event.call.now, last.event.call.now)

theorem Counts.congr {a : Addr} {wakes : List TurnEnv} {s s' : Tracker} (h : Counts a wakes s)
    (htally : s'.tally a = s.tally a) : Counts a wakes s' := by
  rw [Counts, htally]
  exact h

theorem Counts.onLock {a : Addr} {wakes : List TurnEnv} {s : Tracker} (h : Counts a wakes s) (env : TurnEnv)
    (name : Str) : Counts a (wakes ++ [env]) (s.onLock env.event.call.now (identifierOf name env.tid) a) := by
  right
  rcases h with ⟨rfl, hnone⟩ | ⟨first, last, name', hfirst, -, hsome⟩
  . exact ⟨env, env, name, rfl, rfl, Tracker.onLock_tally_of_none _ _ _ _ hnone⟩
  . refine ⟨first, env, name, ?_, List.getLast?_concat, ?_⟩
    . rw [List.head?_append, hfirst]
      rfl
    . rw [Tracker.onLock_tally_of_some _ _ _ _ hsome, List.length_append, List.length_singleton]

theorem Counts.handleSyscall {a : Addr} {envs : List TurnEnv} {w : World} (h : Counts a (wakes envs a) w.toTracker)
    {env : TurnEnv} (hhandled : env.isHandled = true) :
    Counts a (wakes (envs ++ [env]) a) (w.afterSyscall env.event env.tid).toTracker := by
  have hrehash : ∀ s, (env.event.rehash s).tally a = s.tally a := by
    intro s
    rw [Tracker.tally, (env.event.rehash_same s).lockStats]
    rfl
  by_cases hwakes : env.Wakes a
  . have hconcat : wakes (envs ++ [env]) a = wakes envs a ++ [env] := by
      simp [wakes, hwakes]
    obtain ⟨-, regs, hregs, hregswake⟩ := hwakes
    obtain ⟨name, tracker, htracker, heq⟩ := exists_handleSyscall_of_wakes env.event.call env.tid w.toGlobalState
      hregswake
    have hlock := (h.congr htracker).onLock env name
    rw [hconcat]
    apply hlock.congr
    rw [World.afterSyscall, hrehash, hregs]
    exact heq
  . have hsame : wakes (envs ++ [env]) a = wakes envs a := by
      simp [wakes, hwakes]
    rw [hsame]
    apply h.congr
    rw [World.afterSyscall, hrehash]
    exact tally_handleSyscall_of_not_wakes fun hregs => hwakes (TurnEnv.wakes_iff.mpr ⟨hhandled, hregs⟩)

/--
In every run, through all resolutions, the statistics of a lock are the number of the handled wakes of it, with the
times of the first and of the last one.
-/
theorem counts_run (memory : Memory) (envs : List TurnEnv) :
    (run memory envs).Forall fun m => ∀ a, Counts a (wakes envs a) m.world.toTracker := by
  refine forall_run (I := fun envs m => ∀ a, Counts a (wakes envs a) m.world.toTracker) ?_ ?_ envs
  . exact fun a => .inl ⟨rfl, rfl⟩
  . intro envs env m hrun h
    have hresolving := not_isResolving_run hrun
    cases hhandled : env.isHandled with
    | false =>
      rw [turn_of_not_isHandled hhandled hresolving]
      intro a
      have hsame : wakes (envs ++ [env]) a = wakes envs a := by
        simp [wakes, TurnEnv.Wakes, hhandled]
      rw [hsame]
      exact h a
    | true =>
      have hafter := fun a => (h a).handleSyscall hhandled
      have hpass : ((m.world.afterSyscall env.event env.tid).detectAndResolveDeadlocks env.event.pass).Forall _ :=
        World.forall_detectAndResolveDeadlocks (I := fun w =>
            w.lockStats = (m.world.afterSyscall env.event env.tid).lockStats)
          (fun r cycle w hw => (World.resolveThreadDeadlock_lockStats _ cycle w).trans hw) (fun _ _ _ _ hw => hw) rfl
      have hturn := forall_turn_of_pass hhandled hresolving hpass
      refine hturn.imp fun m' hm' a => (hafter a).congr ?_
      rw [Tracker.tally, hm']
      rfl

end MainState

end DeadlockInterceptor
