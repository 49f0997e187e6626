import DeadlockInterceptor.Lemmas.Recurrence
import DeadlockInterceptor.Spec.Observer

/-!
This module contains how long the loop of `main` is an observer: up to the first pass that finds a cycle, and
again from the moment on at which the detection is left switched off.
-/

open DirectedGraph

namespace DeadlockInterceptor

namespace GlobalState

variable (s : GlobalState)

theorem observe_of_isHandled {env : TurnEnv} (h : env.isHandled = true) :
    s.observe env
      =
    { handleSyscall env.event.call env.tid env.event.regs s with
      toTracker := env.event.rehash (handleSyscall env.event.call env.tid env.event.regs s).toTracker } := by
  rw [observe, if_pos h]

theorem observe_of_not_isHandled {env : TurnEnv} (h : env.isHandled = false) : s.observe env = s := by
  rw [observe, if_neg (by simp [h])]

theorem observe_frame (env : TurnEnv) :
    ∃ tracker cache, s.observe env = { s with toTracker := tracker, threadInfoCache := cache } := by
  cases h : env.isHandled with
  | true =>
    obtain ⟨tracker, cache, heq⟩ := handleSyscall_frame env.event.call env.tid env.event.regs s
    rw [observe_of_isHandled s h, heq]
    exact ⟨_, cache, rfl⟩
  | false =>
    rw [observe_of_not_isHandled s h]
    exact ⟨s.toTracker, s.threadInfoCache, rfl⟩

theorem foldl_observe_frame (envs : List TurnEnv) :
    ∃ tracker cache, envs.foldl observe s = { s with toTracker := tracker, threadInfoCache := cache } := by
  induction envs using List.reverseRecOn with
  | nil => exact ⟨s.toTracker, s.threadInfoCache, rfl⟩
  | append_singleton envs env ih =>
    obtain ⟨tracker, cache, heq⟩ := ih
    rw [List.foldl_append, List.foldl_cons, List.foldl_nil, heq]
    exact observe_frame _ env

theorem observed_concat (envs : List TurnEnv) (env : TurnEnv) :
    observed (envs ++ [env]) = (observed envs).observe env := by
  simp only [observed, List.foldl_append, List.foldl_cons, List.foldl_nil]

end GlobalState

/--
The pass over these maps resolves nothing: there is no directed cycle, or the detection of groups throws.
-/
def Tracker.Silent (s : Tracker) (ho : HashOrders) : Prop :=
  (∃ e, detectGroupDeadlock ho s = .error e) ∨
    ((¬∃ cyc, IsCycle (GroupWaits s) cyc) ∧ ¬∃ cyc, IsCycle s.Waits cyc)

namespace ScanState

variable {env : ThreadName → ResolveEnv} {w : World} {st : ScanState}

theorem Unsuccessful.not_isCycle (h : Unsuccessful w st) (hall : ∀ t ∈ w.waitsFor, t ∈ st.visited)
    (cyc : List ThreadName) : ¬IsCycle w.Waits cyc := by
  intro hcyc
  have hhead := List.head_mem hcyc.ne_nil
  obtain ⟨u, htu, -⟩ := hcyc.exists_succ hhead
  have hstack : st.dfsState.stack = ∅ := h.stack
  apply h.finished _ (hall _ (WaitsFor.Edge.mem (w := w.waitsFor) htu))
  . rw [hstack]
    exact Finset.notMem_empty _
  . exact .of_isCycle hcyc hhead

theorem counter_le_loop (env : ThreadName → ResolveEnv) (keys : List ThreadName) (st : ScanState) :
    (loop env keys st).Forall fun st' => st.world.deadlockCounter ≤ st'.world.deadlockCounter := by
  refine forall_loop (I := fun w => st.world.deadlockCounter ≤ w.deadlockCounter) ?_ keys le_rfl
  intro r cycle w hw
  rw [(World.resolveThreadDeadlock_booked (env r) cycle w).2]
  exact Nat.le_succ_of_le hw

theorem counter_lt_turn {env : ResolveEnv} {r : ThreadName} {d : DfsState} (hmem : r ∈ st.world.waitsFor)
    (hvis : r ∉ st.visited) (hd : dfsDeadlock st.world.waitsFor r st.dfsState = (true, d))
    (hlength : 2 ≤ d.cycle.reverse.length)
    (hnew : ∀ existing ∈ st.world.detectedDeadlocks, existing.cycle ≠ d.cycle.reverse) :
    (st.turn env r).Forall fun st' => st.world.deadlockCounter < st'.world.deadlockCounter := by
  have hcounter := (World.resolveThreadDeadlock_booked env d.cycle.reverse st.world).2
  rw [turn_of_new env st hmem hvis hd hlength hnew]
  split
  . next e w heq =>
    rw [heq] at hcounter
    exact Nat.lt_of_succ_le hcounter.ge
  . next w heq =>
    rw [heq] at hcounter
    split
    . trivial
    . exact Nat.lt_of_succ_le hcounter.ge

end ScanState

namespace World

variable {w : World} {env : PassEnv}

theorem afterSyscall_eq {env : TurnEnv} (h : env.isHandled = true) (w : World) :
    w.afterSyscall env.event env.tid = { w with toGlobalState := w.toGlobalState.observe env } := by
  rw [GlobalState.observe_of_isHandled w.toGlobalState h]
  rfl

theorem scanThreads_of_acyclic (hno : ¬∃ cyc, IsCycle w.Waits cyc) (env : ThreadName → ResolveEnv) :
    w.scanThreads env = .returned w := by
  rcases ScanState.exists_first_found env w.waitsFor.keys (ScanState.unsuccessful_init w) with
    ⟨pre, r, st, d, hfound⟩ | ⟨st, hloop, hst, -, -⟩
  . exfalso
    have hresult := hfound.call.result
    rw [hfound.unsuccessful.world] at hresult
    exact hno ⟨_, (hfound.unsuccessful.isLasso hresult).isCycle_cyclePart⟩
  . exact scanThreads_eq_returned.mpr ⟨st, hloop, hst.world⟩

theorem counter_lt_scanThreads (hno : w.detectedDeadlocks = []) (hcyc : ∃ cyc, IsCycle w.Waits cyc)
    (env : ThreadName → ResolveEnv) :
    (w.scanThreads env).Forall fun w' => w.deadlockCounter < w'.deadlockCounter := by
  obtain ⟨pre, r, st, d, hfound⟩ : ∃ pre r st d,
      ScanState.FirstFound env w ⟨w, ∅, ∅⟩ w.waitsFor.keys pre r st d := by
    rcases ScanState.exists_first_found env w.waitsFor.keys (ScanState.unsuccessful_init w) with
      hfound | ⟨st, -, hst, -, hall⟩
    . exact hfound
    . obtain ⟨cyc, hcyc⟩ := hcyc
      exact absurd hcyc (hst.not_isCycle (fun t ht => hall t (AList.mem_keys.mp ht) ht) cyc)
  obtain ⟨post, hkeys⟩ := hfound.keys_eq
  have hw := hfound.unsuccessful.world
  have hturn : (st.turn (env r) r).Forall fun st' => st.world.deadlockCounter < st'.world.deadlockCounter := by
    apply ScanState.counter_lt_turn hfound.call.mem hfound.call.unvisited hfound.call.result
    . have hwithin := ScanState.within_of_loop hfound.call.before
      exact (hwithin.reported hfound.call.unvisited hfound.call.result).1.two_le_length
    . rw [hw, hno]
      exact fun existing hexisting => absurd hexisting List.not_mem_nil
  have hloop : (ScanState.loop env w.waitsFor.keys ⟨w, ∅, ∅⟩).Forall
      fun st' => w.deadlockCounter < st'.world.deadlockCounter := by
    rw [hkeys, ScanState.loop_append, hfound.call.before]
    simp only [ScanState.loop]
    rw [hw] at hturn
    cases hr : st.turn (env r) r with
    | returned st₁ =>
      rw [hr] at hturn
      exact (ScanState.counter_le_loop env post st₁).imp fun st' hst' => Nat.lt_of_lt_of_le hturn hst'
    | thrown e st₁ =>
      rw [hr] at hturn
      exact hturn
    | undefined => trivial
  unfold scanThreads
  cases hl : ScanState.loop env w.waitsFor.keys ⟨w, ∅, ∅⟩ with
  | returned st₁ =>
    rw [hl] at hloop
    exact hloop
  | thrown e st₁ =>
    rw [hl] at hloop
    exact hloop
  | undefined => trivial

def Passive (env : PassEnv) (w : World) : Prop :=
  w.detectAndResolveDeadlocks env = .returned w ∨ ∃ e, w.detectAndResolveDeadlocks env = .thrown e w

theorem passive_of_off (hoff : w.monitoringActive = false) : w.Passive env := by
  left
  simp [detectAndResolveDeadlocks, hoff]

theorem passive_of_silent (hactive : w.monitoringActive = true) (h : w.toTracker.Silent env.orders) :
    w.Passive env := by
  rcases h with ⟨e, herr⟩ | ⟨hgroups, hthreads⟩
  . exact .inr ⟨e, detectAndResolveDeadlocks_of_error env hactive herr⟩
  . left
    rcases detectGroupDeadlock_cases env.orders w.toTracker with ⟨-, hnone⟩ | ⟨hcyc, -⟩
    . rw [detectAndResolveDeadlocks_of_none env hactive hnone]
      exact scanThreads_of_acyclic hthreads env.resolve
    . exact absurd hcyc hgroups

theorem counter_lt_pass (env : PassEnv) (hactive : w.monitoringActive = true) (hno : w.detectedDeadlocks = [])
    (h : ¬w.toTracker.Silent env.orders) :
    (w.detectAndResolveDeadlocks env).Forall fun w' => w.deadlockCounter < w'.deadlockCounter := by
  rw [Tracker.Silent, not_or] at h
  rcases detectGroupDeadlock_cases env.orders w.toTracker with
    ⟨hgroups, hnone⟩ | ⟨-, herr | ⟨groupDeadlock, hgroup, hlength⟩⟩
  . rw [detectAndResolveDeadlocks_of_none env hactive hnone]
    apply counter_lt_scanThreads hno
    by_contra hthreads
    exact h.2 ⟨hgroups, hthreads⟩
  . exact absurd herr h.1
  . simp only [detectAndResolveDeadlocks, hactive, hgroup, if_pos hlength]
    exact Nat.lt_succ_self w.deadlockCounter

theorem counter_le_handleEvent (event : EventEnv) (tid : Pid) (w : World) :
    (w.handleEvent event tid).Forall fun w' => w.deadlockCounter ≤ w'.deadlockCounter := by
  apply forall_handleEvent
  . intro r cycle w' hw'
    rw [(resolveThreadDeadlock_booked (event.pass.resolve r) cycle w').2]
    exact Nat.le_succ_of_le hw'
  . exact fun _ _ _ _ hw' => Nat.le_succ_of_le hw'
  . exact fun _ => le_rfl
  . intro _
    obtain ⟨tracker, cache, heq⟩ := handleSyscall_frame event.call tid event.regs w.toGlobalState
    rw [afterSyscall, heq]

end World

namespace MainState

variable {env : TurnEnv} {m : MainState}

theorem run_concat (memory : Memory) (envs : List TurnEnv) (env : TurnEnv) :
    run memory (envs ++ [env]) = step (run memory envs) env := by
  simp only [run, List.foldl_append, List.foldl_cons, List.foldl_nil]

theorem run_ne_thrown (memory : Memory) (envs : List TurnEnv) (e : Exn) (m : MainState) :
    run memory envs ≠ .thrown e m := by
  induction envs using List.reverseRecOn generalizing e m with
  | nil => simp [run]
  | append_singleton envs env ih =>
    rw [run_concat]
    cases hrun : run memory envs with
    | returned m₀ =>
      unfold step turn
      simp only
      split_ifs
      . simp
      . simp
      . simp
      . cases hevent : m₀.world.handleEvent env.event env.tid with
        | returned w => simp
        | thrown e' w => exact absurd hevent (World.handleEvent_ne_thrown env.event env.tid m₀.world e' w)
        | undefined => simp
      . simp
      . simp
    | thrown e' m₀ => exact absurd hrun (ih e' m₀)
    | undefined => simp [step]

/-- The rule for what holds at the end of every run and depends on the turns it has taken. -/
theorem forall_run {memory : Memory} {I : List TurnEnv → MainState → Prop} (hinit : I [] (init memory))
    (hturn : ∀ envs env m, run memory envs = .returned m → I envs m → (m.turn env).Forall (I (envs ++ [env])))
    (envs : List TurnEnv) : (run memory envs).Forall (I envs) := by
  induction envs using List.reverseRecOn with
  | nil => exact hinit
  | append_singleton envs env ih =>
    rw [run_concat]
    cases hrun : run memory envs with
    | returned m =>
      rw [hrun] at ih
      exact hturn envs env m hrun ih
    | thrown e m => exact absurd hrun (run_ne_thrown memory envs e m)
    | undefined => trivial

theorem turn_of_not_isHandled (h : env.isHandled = false) (hresolving : m.isResolving = false) :
    m.turn env = .returned m := by
  cases hstop : env.isSyscallStop with
  | false => exact turn_of_not_syscallStop hstop
  | true =>
    cases halive : env.tidAlive with
    | false => exact turn_of_dead halive
    | true =>
      rw [TurnEnv.isHandled, hstop, halive, Bool.true_and, Bool.true_and] at h
      rw [turn_of_syscallStop hstop halive hresolving, World.handleEvent_of_dead h]

theorem turn_of_isHandled (h : env.isHandled = true) (hresolving : m.isResolving = false) :
    m.turn env
      =
    match m.world.handleEvent env.event env.tid with
    | .returned w => .returned { m with world := w }
    | .thrown e w => .thrown e { m with world := w }
    | .undefined => .undefined := by
  rw [TurnEnv.isHandled, Bool.and_eq_true, Bool.and_eq_true] at h
  exact turn_of_syscallStop h.1.1 h.1.2 hresolving

theorem turn_of_passive (h : env.isHandled = true) (hresolving : m.isResolving = false)
    (hpass : (m.world.afterSyscall env.event env.tid).Passive env.event.pass) :
    m.turn env = .returned { m with world := m.world.afterSyscall env.event env.tid } := by
  have htid : env.event.tidAlive = true := by
    rw [TurnEnv.isHandled, Bool.and_eq_true] at h
    exact h.2
  rw [turn_of_isHandled h hresolving, World.handleEvent_of_tidAlive htid]
  rcases hpass with heq | ⟨e, heq⟩
  . rw [heq]
  . rw [heq]

theorem forall_turn_of_pass {I : World → Prop} (h : env.isHandled = true) (hresolving : m.isResolving = false)
    (hpass : ((m.world.afterSyscall env.event env.tid).detectAndResolveDeadlocks env.event.pass).Forall I) :
    (m.turn env).Forall fun m' => I m'.world := by
  have htid : env.event.tidAlive = true := by
    rw [TurnEnv.isHandled, Bool.and_eq_true] at h
    exact h.2
  rw [turn_of_isHandled h hresolving, World.handleEvent_of_tidAlive htid]
  cases heq : (m.world.afterSyscall env.event env.tid).detectAndResolveDeadlocks env.event.pass with
  | returned w =>
    rw [heq] at hpass
    exact hpass
  | thrown e w =>
    rw [heq] at hpass
    exact hpass
  | undefined => trivial

theorem counter_le_turn (env : TurnEnv) (m : MainState) :
    (m.turn env).Forall fun m' => m.world.deadlockCounter ≤ m'.world.deadlockCounter := by
  refine forall_turn (I := fun w => m.world.deadlockCounter ≤ w.deadlockCounter) le_rfl ?_
  exact fun _ => World.counter_le_handleEvent env.event env.tid m.world

theorem turn_eq_observe (hresolving : m.isResolving = false)
    (hpass : env.isHandled = true → (m.world.afterSyscall env.event env.tid).Passive env.event.pass) :
    m.turn env
      =
    .returned { m with world := { m.world with toGlobalState := m.world.toGlobalState.observe env } } := by
  cases h : env.isHandled with
  | true => rw [turn_of_passive h hresolving (hpass h), World.afterSyscall_eq h]
  | false =>
    rw [turn_of_not_isHandled h hresolving, GlobalState.observe_of_not_isHandled _ h]

section uneventful

/--
No pass of the run finds a cycle in what has been observed by then.
-/
def Uneventful (envs : List TurnEnv) : Prop :=
  ∀ before env, before ++ [env] <+: envs → env.isHandled = true →
    (GlobalState.observed (before ++ [env])).toTracker.Silent env.event.pass.orders

theorem uneventful_concat_iff {envs : List TurnEnv} :
    Uneventful (envs ++ [env])
      ↔
    Uneventful envs ∧ (env.isHandled = true →
      (GlobalState.observed (envs ++ [env])).toTracker.Silent env.event.pass.orders) := by
  constructor
  . intro h
    refine ⟨?_, h envs env (List.prefix_refl _)⟩
    exact fun before env' hbefore => h before env' (hbefore.trans (List.prefix_append _ _))
  . rintro ⟨henvs, henv⟩ before env' hbefore hhandled
    rcases List.prefix_concat_iff.mp hbefore with heq | hbefore
    . obtain ⟨rfl, heq'⟩ := List.append_inj' heq rfl
      obtain rfl := List.singleton_inj.mp heq'
      exact henv hhandled
    . exact henvs before env' hbefore hhandled

theorem observed_fresh (envs : List TurnEnv) :
    (GlobalState.observed envs).monitoringActive = true ∧ (GlobalState.observed envs).detectedDeadlocks = [] ∧
      (GlobalState.observed envs).deadlockCounter = 0 := by
  obtain ⟨tracker, cache, heq⟩ := GlobalState.foldl_observe_frame .init envs
  rw [GlobalState.observed, heq]
  exact ⟨rfl, rfl, rfl⟩

theorem run_of_uneventful (memory : Memory) {envs : List TurnEnv} (h : Uneventful envs) :
    run memory envs = .returned ⟨⟨GlobalState.observed envs, memory⟩, false⟩ := by
  induction envs using List.reverseRecOn with
  | nil => rfl
  | append_singleton envs env ih =>
    obtain ⟨henvs, henv⟩ := uneventful_concat_iff.mp h
    rw [run_concat, ih henvs, GlobalState.observed_concat]
    refine turn_eq_observe rfl ?_
    intro hhandled
    have hsilent := henv hhandled
    have hactive := (observed_fresh (envs ++ [env])).1
    rw [GlobalState.observed_concat] at hsilent hactive
    rw [World.afterSyscall_eq hhandled]
    exact World.passive_of_silent hactive hsilent

theorem counter_pos_of_eventful (memory : Memory) {envs : List TurnEnv} (h : ¬Uneventful envs) :
    (run memory envs).Forall fun m => 0 < m.world.deadlockCounter := by
  induction envs using List.reverseRecOn with
  | nil =>
    refine absurd ?_ h
    intro before env hbefore
    simp at hbefore
  | append_singleton envs env ih =>
    rw [run_concat]
    by_cases henvs : Uneventful envs
    . rw [run_of_uneventful memory henvs]
      rw [uneventful_concat_iff, not_and, Classical.not_imp] at h
      obtain ⟨hhandled, hfound⟩ := h henvs
      obtain ⟨hactive, hno, hcounter⟩ := observed_fresh (envs ++ [env])
      rw [GlobalState.observed_concat] at hfound hactive hno hcounter
      refine forall_turn_of_pass (I := fun w => 0 < w.deadlockCounter) hhandled rfl ?_
      rw [World.afterSyscall_eq hhandled]
      have hpass := World.counter_lt_pass env.event.pass (w := ⟨(GlobalState.observed envs).observe env, memory⟩)
        hactive hno hfound
      exact hpass.imp fun w hw => Nat.zero_lt_of_lt hw
    . have hbefore := ih henvs
      cases hrun : run memory envs with
      | returned m =>
        rw [hrun] at hbefore
        exact (counter_le_turn env m).imp fun m' hm' => Nat.lt_of_lt_of_le hbefore hm'
      | thrown e m => exact absurd hrun (run_ne_thrown memory envs e m)
      | undefined => trivial

/--
A run ends as that of the observer, with the memory of the target untouched, exactly if none of its passes finds a
cycle in what has been observed by then. Every other run that ends has taken up a deadlock.
-/
theorem run_eq_observed_iff (memory : Memory) (envs : List TurnEnv) :
    (run memory envs = .returned ⟨⟨GlobalState.observed envs, memory⟩, false⟩ ↔ Uneventful envs) ∧
    (¬Uneventful envs → (run memory envs).Forall fun m => 0 < m.world.deadlockCounter) := by
  refine ⟨⟨?_, run_of_uneventful memory⟩, counter_pos_of_eventful memory⟩
  intro hrun
  by_contra h
  have hcounter := counter_pos_of_eventful memory h
  rw [hrun] at hcounter
  exact absurd (observed_fresh envs).2.2 hcounter.ne'

end uneventful

section switchedOff

theorem foldl_step_of_off (hresolving : m.isResolving = false) (hoff : m.world.monitoringActive = false)
    (envs : List TurnEnv) :
    envs.foldl step (.returned m)
      =
    .returned { m with
      world := { m.world with toGlobalState := envs.foldl GlobalState.observe m.world.toGlobalState } } := by
  induction envs using List.reverseRecOn with
  | nil => rfl
  | append_singleton envs env ih =>
    obtain ⟨tracker, cache, heq⟩ := GlobalState.foldl_observe_frame m.world.toGlobalState (envs ++ [env])
    simp only [List.foldl_append, List.foldl_cons, List.foldl_nil] at heq ⊢
    rw [ih]
    refine turn_eq_observe hresolving ?_
    intro hhandled
    apply World.passive_of_off
    rw [World.afterSyscall_eq hhandled]
    simp only [heq, hoff]

/--
Once the detection is switched off the rest of every run is that of the observer: nothing is written, recorded or
counted any more, and nothing switches the detection on again.
-/
theorem observes_of_off {memory : Memory} {before : List TurnEnv} (hm : run memory before = .returned m)
    (hoff : m.world.monitoringActive = false) (after : List TurnEnv) :
    ∃ m', run memory (before ++ after) = .returned m' ∧
      m'.world.toGlobalState = after.foldl GlobalState.observe m.world.toGlobalState ∧
      m'.world.memory = m.world.memory ∧ m'.world.detectedDeadlocks = m.world.detectedDeadlocks ∧
      m'.world.deadlockCounter = m.world.deadlockCounter ∧ m'.world.monitoringActive = false := by
  have hsplit : run memory (before ++ after) = after.foldl step (.returned m) := by
    rw [run, List.foldl_append, ← run, hm]
  refine ⟨_, hsplit.trans (foldl_step_of_off (not_isResolving_run hm) hoff after), rfl, rfl, ?_⟩
  obtain ⟨tracker, cache, heq⟩ := GlobalState.foldl_observe_frame m.world.toGlobalState after
  simp only [heq, hoff, and_self]

def crossTurns : List TurnEnv :=
  [futexStop 1 0x10000 1, futexStop 2 0x10010 1, futexStop 1 0x10010 0, futexStop 2 0x10000 0]

theorem exists_crossTurns_off :
    ∃ m, run (fun _ => 1) crossTurns = .returned m ∧ m.world.monitoringActive = false := by
  apply Outcome.exists_of_returns
  decide +kernel

theorem observes_of_off_cross : ∃ m m', run (fun _ => 1) crossTurns = .returned m ∧
    run (fun _ => 1) (crossTurns ++ crossTurns) = .returned m' ∧
    m'.world.toGlobalState = crossTurns.foldl GlobalState.observe m.world.toGlobalState ∧
    m'.world.memory = m.world.memory ∧ m'.world.detectedDeadlocks = m.world.detectedDeadlocks ∧
    m'.world.deadlockCounter = m.world.deadlockCounter ∧ m'.world.monitoringActive = false := by
  obtain ⟨m, hm, hoff⟩ := exists_crossTurns_off
  obtain ⟨m', hm'⟩ := observes_of_off hm hoff crossTurns
  exact ⟨m, m', hm, hm'⟩

end switchedOff

end MainState

end DeadlockInterceptor
