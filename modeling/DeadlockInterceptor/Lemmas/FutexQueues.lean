import DeadlockInterceptor.Lemmas.Identifiers
import DeadlockInterceptor.Spec.FutexQueues

/-!
This module contains which blocked threads the tracker knows of. `on_wake` drops all waiters of a futex
whatever number of them is woken, so the ones the kernel leaves in its queue are forgotten.
-/

namespace DeadlockInterceptor

namespace Watched

variable {m : Watched} {c : QueueCall}

/--
Each thread in a queue of the kernel is registered at the futex of that queue, under the name it is known by.
-/
def NotForgotten (m : Watched) : Prop :=
  ∀ a tid, tid ∈ m.queues a → ∃ name, m.monitor.Known tid name ∧ name ∈ m.monitor.waiters a

/--
A wait is for an address that is tracked, and a wake is for all threads of the queue.
-/
def WakesAll (m : Watched) (c : QueueCall) : Prop :=
  match c.call with
  | .wait => junkAddr c.addr = false
  | .wake => (m.queues c.addr).length ≤ c.count

def NoJunkWaiters (m : Watched) : Prop := m.monitor.NoJunkWaiters

section step

theorem queues_step_wait (hcall : c.call = .wait) :
    (m.step c).queues = Function.update m.queues c.addr (m.queues c.addr ++ [c.tid]) := by
  simp only [step, Queues.step, hcall]

theorem queues_step_wake (hcall : c.call = .wake) :
    (m.step c).queues = Function.update m.queues c.addr c.rest := by
  simp only [step, Queues.step, hcall]

theorem waiters_step_wait (hcall : c.call = .wait) (ha : junkAddr c.addr = false) (a : Addr) :
    (m.step c).monitor.waiters a
      =
    if a = c.addr then m.monitor.waiters c.addr ++ [m.monitor.nameOf c.toEvent] else m.monitor.waiters a := by
  show (m.monitor.step c.toEvent).waiters a = _
  rw [GlobalState.step_wait_toTracker hcall ha, Tracker.onWait_waiters]

theorem waiters_step_wake (hcall : c.call = .wake) (ha : junkAddr c.addr = false) (a : Addr) :
    (m.step c).monitor.waiters a
      =
    (if a = c.addr then [] else m.monitor.waiters a).filter (· ≠ m.monitor.nameOf c.toEvent) := by
  show (m.monitor.step c.toEvent).waiters a = _
  rw [GlobalState.step_wake_toTracker hcall ha, Tracker.onLock_waiters, Tracker.onWake_waiters]

theorem NotForgotten.registered_step_wait (h : m.NotForgotten) (hcall : c.call = .wait)
    (ha : junkAddr c.addr = false) {a : Addr} {tid : Pid} (ht : tid ∈ m.queues a) :
    ∃ name, (m.step c).monitor.Known tid name ∧ name ∈ (m.step c).monitor.waiters a := by
  obtain ⟨name, hknown, hname⟩ := h a tid ht
  refine ⟨name, hknown.step c.toEvent, ?_⟩
  rw [waiters_step_wait hcall ha]
  split
  . next hac =>
    subst hac
    apply List.mem_append_left
    exact hname
  . exact hname

theorem NotForgotten.registered_step_wake (h : m.NotForgotten) (hallows : m.Allows c) (hcall : c.call = .wake)
    {a : Addr} {tid : Pid} (hac : a ≠ c.addr) (ht : tid ∈ m.queues a) :
    ∃ name, (m.step c).monitor.Known tid name ∧ name ∈ (m.step c).monitor.waiters a := by
  obtain ⟨name, hknown, hname⟩ := h a tid ht
  refine ⟨name, hknown.step c.toEvent, ?_⟩
  cases ha : junkAddr c.addr with
  | false =>
    have hne : name ≠ m.monitor.nameOf c.toEvent := by
      rintro rfl
      obtain ⟨info, -, hinfo⟩ := hknown
      have htid : tid = c.tid := identifierOf_injective hinfo
      subst htid
      exact hallows.notQueued a ht
    rw [waiters_step_wake hcall ha, if_neg hac, List.mem_filter]
    exact ⟨hname, by simpa using hne⟩
  | true =>
    show name ∈ (m.monitor.step c.toEvent).waiters a
    rw [GlobalState.step_junk_toTracker ha, hcall]
    simp [hac, hname]

theorem notForgotten_wait_iff (hjunk : m.NoJunkWaiters) (h : m.NotForgotten) (hcall : c.call = .wait) :
    (m.step c).NotForgotten ↔ junkAddr c.addr = false := by
  constructor
  . intro h'
    by_contra hnot
    rw [Bool.not_eq_false] at hnot
    have hmem : c.tid ∈ (m.step c).queues c.addr := by
      rw [queues_step_wait hcall, Function.update_self]
      simp
    obtain ⟨name, -, hname⟩ := h' c.addr c.tid hmem
    have hnone : (m.step c).monitor.waiters c.addr = [] :=
      GlobalState.noJunkWaiters_step m.monitor c.toEvent hjunk c.addr hnot
    rw [hnone] at hname
    exact absurd hname List.not_mem_nil
  . intro ha a tid ht
    rw [queues_step_wait hcall] at ht
    by_cases hac : a = c.addr
    . subst hac
      rw [Function.update_self, List.mem_append, List.mem_singleton] at ht
      cases ht with
      | inl ht =>
        apply h.registered_step_wait hcall ha
        exact ht
      | inr ht =>
        subst ht
        refine ⟨_, GlobalState.known_step_nameOf m.monitor ha, ?_⟩
        rw [waiters_step_wait hcall ha, if_pos rfl]
        simp
    . rw [Function.update_of_ne hac] at ht
      apply h.registered_step_wait hcall ha
      exact ht

theorem rest_eq_nil_of_notForgotten (hallows : m.Allows c) (hjunk : m.NoJunkWaiters) (h : m.NotForgotten)
    (hcall : c.call = .wake) (h' : (m.step c).NotForgotten) : c.rest = [] := by
  by_contra hsome
  obtain ⟨tid, ht⟩ := List.exists_mem_of_ne_nil _ hsome
  have hmem : tid ∈ (m.step c).queues c.addr := by
    rw [queues_step_wake hcall, Function.update_self]
    exact ht
  obtain ⟨name', -, hname'⟩ := h' c.addr tid hmem
  obtain ⟨name, -, hname⟩ := h c.addr tid ((hallows.sublist hcall).subset ht)
  cases ha : junkAddr c.addr with
  | false =>
    rw [waiters_step_wake hcall ha, if_pos rfl, List.filter_nil] at hname'
    exact absurd hname' List.not_mem_nil
  | true =>
    have hnone := hjunk c.addr ha
    rw [hnone] at hname
    exact absurd hname List.not_mem_nil

theorem notForgotten_wake_iff (hallows : m.Allows c) (hjunk : m.NoJunkWaiters) (h : m.NotForgotten)
    (hcall : c.call = .wake) :
    (m.step c).NotForgotten ↔ (m.queues c.addr).length ≤ c.count := by
  have hrest : c.rest = [] ↔ (m.queues c.addr).length ≤ c.count := by
    have hlength := hallows.length hcall
    rw [← List.length_eq_zero_iff]
    omega
  rw [← hrest]
  constructor
  . exact rest_eq_nil_of_notForgotten hallows hjunk h hcall
  . intro hempty a tid ht
    rw [queues_step_wake hcall] at ht
    by_cases hac : a = c.addr
    . subst hac
      rw [Function.update_self, hempty] at ht
      exact absurd ht List.not_mem_nil
    . rw [Function.update_of_ne hac] at ht
      apply h.registered_step_wake hallows hcall hac
      exact ht

theorem notForgotten_step_iff (hallows : m.Allows c) (hjunk : m.NoJunkWaiters) (h : m.NotForgotten) :
    (m.step c).NotForgotten ↔ m.WakesAll c := by
  unfold WakesAll
  cases hcall : c.call with
  | wait => exact notForgotten_wait_iff hjunk h hcall
  | wake => exact notForgotten_wake_iff hallows hjunk h hcall

end step

theorem notForgotten_init : init.NotForgotten := by
  intro a tid ht
  exact absurd ht List.not_mem_nil

/--
No blocked thread is forgotten in a run exactly if each wait is for a tracked address and each wake wakes all
threads that are queued.
-/
theorem notForgotten_run_iff (cs : List QueueCall) (hallows : Run.Steps step Allows init cs) :
    Run.States step NotForgotten init cs ↔ Run.Steps step WakesAll init cs := by
  apply Run.states_iff_steps_of (J := NoJunkWaiters) (V := Allows)
  . intro m c _ hjunk
    exact GlobalState.noJunkWaiters_step m.monitor c.toEvent hjunk
  . intro m c hallows hjunk h
    exact notForgotten_step_iff hallows hjunk h
  . exact GlobalState.noJunkWaiters_init
  . exact notForgotten_init
  . exact hallows

def wakeOne : List QueueCall :=
  [⟨⟨.wait, 1, 0x10000, .bare⟩, 0, []⟩, ⟨⟨.wait, 2, 0x10000, .bare⟩, 0, []⟩,
    ⟨⟨.wake, 3, 0x10000, .bare⟩, 1, [2]⟩]

theorem wakeOne_allowed : Run.Steps step Allows init wakeOne := by
  refine ⟨⟨?_, by decide, by decide⟩, ⟨?_, by decide, by decide⟩, ⟨?_, by decide, by decide⟩, trivial⟩
  . intro a
    exact List.not_mem_nil
  . intro a
    by_cases ha : a = 0x10000
    . subst ha
      decide
    . simp [step, Queues.step, init, ha]
  . intro a
    by_cases ha : a = 0x10000
    . subst ha
      decide
    . simp [step, Queues.step, init, ha]

theorem notForgotten_run_iff_wakeOne :
    Run.Steps step Allows init wakeOne ∧
      (Run.States step NotForgotten init wakeOne ↔ Run.Steps step WakesAll init wakeOne) :=
  ⟨wakeOne_allowed, notForgotten_run_iff wakeOne wakeOne_allowed⟩

theorem exists_forgotten :
    ¬∀ cs, Run.Steps step Allows init cs → Run.States step NotForgotten init cs := by
  intro h
  have hlast := (h wakeOne wakeOne_allowed).last
  obtain ⟨name, -, hname⟩ := hlast 0x10000 2 (by decide)
  exact absurd hname List.not_mem_nil

end Watched

end DeadlockInterceptor
