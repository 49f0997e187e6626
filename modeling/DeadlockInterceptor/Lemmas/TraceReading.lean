import DeadlockInterceptor.Lemmas.Identifiers
import DeadlockInterceptor.Spec.Trace

/-!
This module contains that the tracker computes the meaning of its maps from `Spec.Trace`: after every run
the maps are the stated functions of the trace of the run.
-/

universe u

namespace DeadlockInterceptor

namespace Tracker

def acquisitions (s : Tracker) (a : Addr) : Option (Nat × ThreadName) :=
  (s.lockStats.lookup a).map fun stats => (stats.totalAcquisitions, stats.currentOwner)

section acquisitions

variable (s : Tracker) (now : Time) (t : ThreadName) (a b : Addr)

@[simp]
theorem onLock_acquisitions :
    (s.onLock now t a).acquisitions b
      =
    if b = a then
      some ((s.acquisitions a).elim 1 fun p => p.1 + 1, t)
    else
      s.acquisitions b := by
  simp only [onLock, updateLockStats, acquisitions]
  split
  . next h =>
    simp only [AList.lookup_insert_eq, h]
    split <;> rfl
  . next h =>
    simp only [AList.lookup_insert_eq, h]
    split <;> rfl

@[simp]
theorem refreshLockStats_acquisitions : (s.refreshLockStats a).acquisitions b = s.acquisitions b := by
  unfold refreshLockStats
  split
  . next stats h =>
    simp only [acquisitions, AList.lookup_insert_eq]
    split
    . next hb =>
      subst hb
      simp [h]
    . rfl
  . rfl

@[simp]
theorem onWait_acquisitions : (s.onWait now t a).acquisitions b = s.acquisitions b := by
  simp only [onWait, refreshLockStats_acquisitions]
  simp only [acquisitions, addWaitEdge_lockStats]

@[simp]
theorem onWake_acquisitions : (s.onWake a).acquisitions b = s.acquisitions b := by
  unfold onWake
  split
  . rfl
  . rw [refreshLockStats_acquisitions]
    rfl

end acquisitions

variable {θ : Type u}

section follows

variable {ident : θ → ThreadName} {tr : Trace θ} {s : Tracker} (howner : ∀ a, s.owner a = (tr.lastWaker a).map ident)
include howner

theorem owner_of_wait (now : Time) (t : θ) (a b : Addr) :
    (s.onWait now (ident t) a).owner b = (Trace.lastWaker (tr ++ [⟨.wait, t, a⟩]) b).map ident := by
  rw [onWait_owner, howner, Trace.lastWaker_append]
  simp [Call.Wakes]

theorem owner_of_wake (now : Time) (t : θ) (a b : Addr) :
    ((s.onWake a).onLock now (ident t) a).owner b = (Trace.lastWaker (tr ++ [⟨.wake, t, a⟩]) b).map ident := by
  rw [onLock_owner, onWake_owner, howner, Trace.lastWaker_append]
  simp only [Call.Wakes, true_and, eq_comm (a := a)]
  split <;> rfl

variable (hwaits : ∀ t u, s.Waits (ident t) (ident u) ↔ tr.WaitsFor t u) (hinj : Function.Injective ident)
include hwaits hinj

theorem waits_of_wait (now : Time) (t : θ) (a : Addr) (x u : θ) :
    (s.onWait now (ident t) a).Waits (ident x) (ident u) ↔ Trace.WaitsFor (tr ++ [⟨.wait, t, a⟩]) x u := by
  have hlast : s.owner a = some (ident u) ↔ tr.lastWaker a = some u := by
    rw [howner]
    exact Option.map_injective hinj |>.eq_iff (b := some u)
  rw [onWait_waits, hwaits, Trace.waitsFor_append, hlast]
  simp only [hinj.eq_iff, ne_eq, Call.WakeBy, Call.WaitOf]
  constructor
  . rintro (h | ⟨rfl, h⟩)
    . exact .inl ⟨h, by simp⟩
    . exact .inr ⟨by simp, h⟩
  . rintro (h | ⟨⟨-, rfl, -⟩, h⟩)
    . exact .inl h.1
    . exact .inr ⟨rfl, h⟩

omit howner in
theorem waits_of_wake (now : Time) (t : θ) (a : Addr) (x u : θ) :
    ((s.onWake a).onLock now (ident t) a).Waits (ident x) (ident u)
      ↔
    Trace.WaitsFor (tr ++ [⟨.wake, t, a⟩]) x u := by
  rw [onLock_waits, onWake_waits, hwaits, Trace.waitsFor_append]
  simp only [Call.WakeBy, Call.WaitOf, hinj.eq_iff, true_and, reduceCtorEq, false_and, or_false,
    ne_eq, eq_comm (a := t)]
  exact and_comm

end follows

variable [DecidableEq θ]

/--
The maps of the tracker are the functions of the trace `tr` they stand for, where `ident` gives the
identifiers of the threads.
-/
structure Reads (ident : θ → ThreadName) (tr : Trace θ) (s : Tracker) : Prop where
  owner : ∀ a, s.owner a = (tr.lastWaker a).map ident
  held : ∀ t a, s.Held (ident t) a ↔ tr.HasWoken t a
  waits : ∀ t u, s.Waits (ident t) (ident u) ↔ tr.WaitsFor t u
  waiters : ∀ t a, (s.waiters a).count (ident t) = tr.pendingWaits t a
  stats : ∀ a, s.acquisitions a = (tr.lastWaker a).map fun t => (tr.wakeCount a, ident t)

variable {ident : θ → ThreadName} {tr : Trace θ} {s : Tracker}

theorem reads_empty : Reads ident [] empty where
  owner _ := rfl
  held t a := by simp [Held, empty, Trace.HasWoken, AList.getD]
  waits t u := by simp [Waits, empty, Trace.WaitsFor, AList.getD]
  waiters _ _ := rfl
  stats _ := rfl

theorem Reads.onWait (h : Reads ident tr s) (hinj : Function.Injective ident) (now : Time) (t : θ)
    (a : Addr) : Reads ident (tr ++ [⟨.wait, t, a⟩]) (s.onWait now (ident t) a) where
  owner := owner_of_wait h.owner now t a
  held x b := by
    rw [onWait_held, h.held, Trace.hasWoken_append]
    simp [Call.WakeBy]
  waits := waits_of_wait h.owner h.waits hinj now t a
  waiters x b := by
    rw [onWait_waiters, Trace.pendingWaits_append]
    simp only [Call.Wakes, Call.WakeBy, Call.WaitOf, reduceCtorEq, false_and, or_self, ↓reduceIte,
      true_and]
    split
    . next hb =>
      subst hb
      rw [List.count_append, h.waiters, List.count_singleton]
      simp only [beq_iff_eq, hinj.eq_iff, and_true]
    . next hb =>
      rw [h.waiters, if_neg (by simp [Ne.symm hb])]
      rfl
  stats b := by
    rw [onWait_acquisitions, h.stats, Trace.lastWaker_append, Trace.wakeCount_append]
    simp [Call.Wakes]

theorem Reads.wake (h : Reads ident tr s) (hinj : Function.Injective ident) (now : Time) (t : θ)
    (a : Addr) :
    Reads ident (tr ++ [⟨.wake, t, a⟩]) ((s.onWake a).onLock now (ident t) a) where
  owner := owner_of_wake h.owner now t a
  held x b := by
    rw [onLock_held, onWake_held, h.held, Trace.hasWoken_append]
    simp only [Call.WakeBy, hinj.eq_iff, true_and, eq_comm (a := a), eq_comm (a := t)]
    exact or_comm
  waits := waits_of_wake h.waits hinj now t a
  waiters x b := by
    rw [onLock_waiters, onWake_waiters, Trace.pendingWaits_append]
    simp only [Call.Wakes, Call.WakeBy, Call.WaitOf, true_and, reduceCtorEq, false_and, ↓reduceIte,
      Nat.add_zero, eq_comm (a := a), eq_comm (a := t)]
    by_cases hb : b = a
    . simp [hb]
    . by_cases hx : x = t
      . subst hx
        rw [if_neg hb, if_pos (.inr rfl), List.count_eq_zero]
        simp
      . rw [if_neg hb, if_neg (by simp [hb, hx]), List.count_filter, h.waiters]
        simpa using fun heq => hx (hinj heq)
  stats b := by
    rw [onLock_acquisitions, onWake_acquisitions, onWake_acquisitions, h.stats, h.stats,
      Trace.lastWaker_append, Trace.wakeCount_append]
    simp only [Call.Wakes, true_and, eq_comm (a := a)]
    split
    . next hb =>
      subst hb
      -- the first wake of a futex creates its statistics
      cases hlast : tr.lastWaker b with
      | some u => simp
      | none =>
        have hzero : tr.wakeCount b = 0 := by
          simp only [Trace.lastWaker, Option.map_eq_none_iff, List.find?_eq_none,
            List.mem_reverse, decide_eq_true_eq] at hlast
          simpa [Trace.wakeCount, List.countP_eq_zero] using hlast
        simp [hzero]
    . rfl

end Tracker

namespace GlobalState

theorem run_append (evs : List Event) (e : Event) : run (evs ++ [e]) = (run evs).step e := by
  simp [run, List.foldl_append]

theorem reads_run_of_known {ident : Pid → ThreadName} (hinj : Function.Injective ident)
    (evs : List Event) (hknown : ∀ tid name, (run evs).Known tid name → ident tid = name)
    (hjunk : ∀ e ∈ evs, junkAddr e.addr = false) :
    Tracker.Reads ident (evs.map Event.toCall) (run evs).toTracker := by
  induction evs using List.reverseRecOn with
  | nil => exact Tracker.reads_empty
  | append_singleton evs e ih =>
    rw [run_append] at hknown ⊢
    have hreads := ih (fun tid name h => hknown tid name (h.step e))
      (fun e' he' => hjunk e' (List.mem_append_left _ he'))
    have ha : junkAddr e.addr = false := hjunk e (by simp)
    have hname : (run evs).nameOf e = ident e.tid :=
      (hknown _ _ (known_step_nameOf _ ha)).symm
    rw [List.map_append, List.map_singleton]
    cases hcall : e.call with
    | wait =>
      rw [step_wait_toTracker hcall ha, hname]
      have hc : e.toCall = ⟨.wait, e.tid, e.addr⟩ := by simp [Event.toCall, hcall]
      rw [hc]
      exact hreads.onWait hinj _ _ _
    | wake =>
      rw [step_wake_toTracker hcall ha, hname]
      have hc : e.toCall = ⟨.wake, e.tid, e.addr⟩ := by simp [Event.toCall, hcall]
      rw [hc]
      exact hreads.wake hinj _ _ _

/--
After every run on plausible addresses the maps are the functions of the trace they stand for.
-/
theorem reads_run (evs : List Event) (hjunk : ∀ e ∈ evs, junkAddr e.addr = false) :
    Function.Injective (run evs).identifier ∧
      Tracker.Reads (run evs).identifier (evs.map Event.toCall) (run evs).toTracker :=
  ⟨identifier_injective _,
    reads_run_of_known (identifier_injective _) evs (fun _ _ h => h.identifier_eq) hjunk⟩

def handover : List Event :=
  [⟨.wake, 1, 0x10000, .bare⟩, ⟨.wait, 2, 0x10000, .bare⟩, ⟨.wake, 1, 0x10000, .bare⟩]

theorem reads_run_handover :
    (∀ e ∈ handover, junkAddr e.addr = false) ∧ Function.Injective (run handover).identifier ∧
      Tracker.Reads (run handover).identifier (handover.map Event.toCall)
        (run handover).toTracker :=
  ⟨by decide, reads_run handover (by decide)⟩

end GlobalState

end DeadlockInterceptor
