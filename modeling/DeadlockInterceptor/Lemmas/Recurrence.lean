import DeadlockInterceptor.Lemmas.SyscallStops

/-!
This module contains when the pass attempts to resolve a vector of threads it finds. The vectors it has booked
are never taken from `detected_deadlocks`, so one that comes back is not attempted again.
-/

namespace DeadlockInterceptor

namespace Outcome

variable {σ : Type} {p : σ → Prop}

def Returns (p : σ → Prop) : Outcome σ → Prop
  | .returned s => p s
  | .thrown _ _ => False
  | .undefined => False

instance [DecidablePred p] : DecidablePred (Returns p)
  | .returned s => inferInstanceAs (Decidable (p s))
  | .thrown _ _ => inferInstanceAs (Decidable False)
  | .undefined => inferInstanceAs (Decidable False)

theorem exists_of_returns {outcome : Outcome σ} (h : outcome.Returns p) :
    ∃ s, outcome = .returned s ∧ p s := by
  cases outcome with
  | returned s => exact ⟨s, rfl, h⟩
  | thrown e s => exact h.elim
  | undefined => exact h.elim

end Outcome

namespace World

theorem resolveDeadlockStrategy1_booked (env : Strategy1Env) (deadlock : DeadlockInfo) (w : World) :
    (w.resolveDeadlockStrategy1 env deadlock).2.detectedDeadlocks = w.detectedDeadlocks ∧
      (w.resolveDeadlockStrategy1 env deadlock).2.deadlockCounter = w.deadlockCounter := by
  rcases resolveDeadlockStrategy1_cases env deadlock w with
    ⟨e, -, heq⟩ | ⟨memory, heq⟩ | ⟨victim, tid, run, status, -, -, -, -, heq⟩
  . rw [heq]
    exact ⟨rfl, rfl⟩
  . rw [heq]
    exact ⟨rfl, rfl⟩
  . rw [heq]
    exact ⟨rfl, rfl⟩

theorem emergencyDeadlockBreak_booked (env : EmergencyEnv) (deadlock : DeadlockInfo) (w : World) :
    (w.emergencyDeadlockBreak env deadlock).2.detectedDeadlocks = w.detectedDeadlocks ∧
      (w.emergencyDeadlockBreak env deadlock).2.deadlockCounter = w.deadlockCounter := by
  unfold emergencyDeadlockBreak
  split
  . exact ⟨rfl, rfl⟩
  . exact ⟨rfl, rfl⟩
  . exact ⟨rfl, rfl⟩

theorem resolveThreadDeadlock_booked (env : ResolveEnv) (cycle : List ThreadName) (w : World) :
    w.detectedDeadlocks <+: (w.resolveThreadDeadlock env cycle).2.detectedDeadlocks ∧
      (w.resolveThreadDeadlock env cycle).2.deadlockCounter = w.deadlockCounter + 1 := by
  apply resolveThreadDeadlock_rule (I := fun w' => w.detectedDeadlocks <+: w'.detectedDeadlocks ∧
    w'.deadlockCounter = w.deadlockCounter + 1)
  . intro deadlock w' h
    obtain ⟨hbooked, hcounter⟩ := resolveDeadlockStrategy1_booked env.strategy1 deadlock w'
    rwa [hbooked, hcounter]
  . intro deadlock w' h
    obtain ⟨hbooked, hcounter⟩ := emergencyDeadlockBreak_booked env.emergency deadlock w'
    rwa [hbooked, hcounter]
  . intro deadlock w' _ h
    exact ⟨h.1.trans (List.prefix_append _ _), h.2⟩
  . exact ⟨List.prefix_refl _, rfl⟩

theorem afterSyscall_detectedDeadlocks (event : EventEnv) (tid : Pid) (w : World) :
    (w.afterSyscall event tid).detectedDeadlocks = w.detectedDeadlocks := by
  obtain ⟨tracker, cache, heq⟩ := handleSyscall_frame event.call tid event.regs w.toGlobalState
  rw [afterSyscall, heq]

end World

def Remembers (booked : List DeadlockInfo) (w : World) : Prop := booked <+: w.detectedDeadlocks

theorem Remembers.resolveThreadDeadlock {booked : List DeadlockInfo} {w : World} (h : Remembers booked w)
    (env : ResolveEnv) (cycle : List ThreadName) : Remembers booked (w.resolveThreadDeadlock env cycle).2 :=
  h.trans (World.resolveThreadDeadlock_booked env cycle w).1

theorem Remembers.afterSyscall {booked : List DeadlockInfo} {w : World} (h : Remembers booked w)
    (event : EventEnv) (tid : Pid) : Remembers booked (w.afterSyscall event tid) := by
  rw [Remembers, World.afterSyscall_detectedDeadlocks]
  exact h

namespace ScanState

variable {env : ResolveEnv} {st : ScanState} {r : ThreadName} {d : DfsState}

def Attempts (env : ResolveEnv) (r : ThreadName) (st : ScanState) (cycle : List ThreadName) : Prop :=
  ∃ st' : ScanState,
    st.turn env r
      =
    match st.world.resolveThreadDeadlock env cycle with
    | (.error e, world) => .thrown e { st' with world := world }
    | (.ok (), world) =>
      if r ∉ world.waitsFor then .undefined else .returned { st' with world := world }

theorem not_attempts_of_afterDfs {cycle : List ThreadName}
    (hturn : st.turn env r = .returned (st.afterDfs d)) : ¬Attempts env r st cycle := by
  rintro ⟨st', hattempt⟩
  have hcounter := (World.resolveThreadDeadlock_booked env cycle st.world).2
  rw [hturn] at hattempt
  split at hattempt
  . simp at hattempt
  . next world heq =>
    split at hattempt
    . simp at hattempt
    . have hworld : st.world = world := congrArg ScanState.world (Outcome.returned.inj hattempt)
      rw [heq, ← hworld] at hcounter
      have hsame : st.world.deadlockCounter = st.world.deadlockCounter + 1 := hcounter
      omega

theorem attempts_iff (env : ResolveEnv) (hmem : r ∈ st.world.waitsFor) (hvis : r ∉ st.visited)
    (hd : dfsDeadlock st.world.waitsFor r st.dfsState = (true, d)) (hlength : 2 ≤ d.cycle.reverse.length) :
    Attempts env r st d.cycle.reverse
      ↔
    ∀ existing ∈ st.world.detectedDeadlocks, existing.cycle ≠ d.cycle.reverse := by
  constructor
  . intro hattempts existing hin heq
    have hturn := turn_of_recorded env st hmem hvis hd ⟨existing, hin, heq⟩
    exact not_attempts_of_afterDfs hturn hattempts
  . intro hnew
    exact ⟨st.afterDfs d, turn_of_new env st hmem hvis hd hlength hnew⟩

theorem remembers_of_loop {env : ThreadName → ResolveEnv} {keys : List ThreadName} {st' : ScanState}
    {booked : List DeadlockInfo} (h : Remembers booked st.world) (hloop : loop env keys st = .returned st') :
    Remembers booked st'.world := by
  have hforall := forall_loop (fun r cycle w hw => hw.resolveThreadDeadlock (env r) cycle) keys h
  rw [hloop] at hforall
  exact hforall

end ScanState

namespace MainState

variable {env : TurnEnv} {m : MainState}

theorem remembers_turn {booked : List DeadlockInfo} (h : Remembers booked m.world) :
    (m.turn env).Forall fun m' => Remembers booked m'.world := by
  apply forall_turn h
  intro _
  apply World.forall_handleEvent
  . exact fun r cycle w hw => hw.resolveThreadDeadlock (env.event.pass.resolve r) cycle
  . exact fun _ _ _ _ hw => hw
  . exact fun _ => h
  . exact fun _ => h.afterSyscall env.event env.tid

theorem remembers_run {memory : Memory} {before envs : List TurnEnv} {m₀ : MainState}
    (hbefore : before <+: envs) (hm₀ : run memory before = .returned m₀) (hm : run memory envs = .returned m) :
    Remembers m₀.world.detectedDeadlocks m.world := by
  obtain ⟨after, rfl⟩ := hbefore
  rw [run] at hm₀
  rw [run, List.foldl_append, hm₀] at hm
  have hstart : (Outcome.returned m₀).Forall fun m => Remembers m₀.world.detectedDeadlocks m.world :=
    List.prefix_refl _
  have hforall := forall_foldl_step (fun m env h => remembers_turn h) hstart after
  rw [hm] at hforall
  exact hforall

/--
The turn hands a system call stop to the handler, its pass finds no deadlock of groups, and after the entries
`pre` the loop over the threads finds a vector from `r` on.
-/
structure Finds (m : MainState) (env : TurnEnv) (pre : List ThreadName) (r : ThreadName) (st : ScanState)
    (d : DfsState) : Prop where
  stop : env.isSyscallStop = true
  tidAlive : env.tidAlive = true
  handled : env.event.tidAlive = true
  active : (m.world.afterSyscall env.event env.tid).monitoringActive = true
  noGroups : ∃ groupDeadlock,
    detectGroupDeadlock env.event.pass.orders (m.world.afterSyscall env.event env.tid).toTracker
      = .ok groupDeadlock ∧ groupDeadlock.groupCycle.length < 2
  keys : pre ++ [r] <+: (m.world.afterSyscall env.event env.tid).waitsFor.keys
  call : ScanState.IsCall env.event.pass.resolve ⟨m.world.afterSyscall env.event env.tid, ∅, ∅⟩ pre r st true d

theorem Finds.two_le_length {pre : List ThreadName} {r : ThreadName} {st : ScanState} {d : DfsState}
    (h : m.Finds env pre r st d) : 2 ≤ d.cycle.reverse.length := by
  have hwithin := ScanState.within_of_loop h.call.before
  exact (hwithin.reported h.call.unvisited h.call.result).1.two_le_length

theorem Finds.turn_of_booked {pre : List ThreadName} {r : ThreadName} {st : ScanState} {d : DfsState}
    (h : m.Finds env pre r st d) {booked : DeadlockInfo} (hbooked : booked ∈ m.world.detectedDeadlocks)
    (hcycle : booked.cycle = d.cycle.reverse) :
    st.turn (env.event.pass.resolve r) r = .returned (st.afterDfs d) := by
  have hm : Remembers m.world.detectedDeadlocks m.world := List.prefix_refl _
  have hst : Remembers m.world.detectedDeadlocks st.world :=
    ScanState.remembers_of_loop (hm.afterSyscall env.event env.tid) h.call.before
  apply ScanState.turn_of_recorded _ _ h.call.mem h.call.unvisited h.call.result
  exact ⟨booked, hst.subset hbooked, hcycle⟩

def Continues (m : MainState) (env : TurnEnv) (keys : List ThreadName) (st : ScanState) : Prop :=
  m.turn env
    =
  match ScanState.loop env.event.pass.resolve keys st with
  | .returned st' => .returned { m with world := st'.world }
  | .thrown _ st' => .returned { m with world := st'.world }
  | .undefined => .undefined

theorem Finds.continues {pre : List ThreadName} {r : ThreadName} {st : ScanState} {d : DfsState}
    (h : m.Finds env pre r st d) (hresolving : m.isResolving = false) :
    ∃ post, m.Continues env (r :: post) st := by
  obtain ⟨post, hkeys⟩ := h.keys
  obtain ⟨groupDeadlock, hgroup, hlength⟩ := h.noGroups
  refine ⟨post, ?_⟩
  have hloop : ScanState.loop env.event.pass.resolve (m.world.afterSyscall env.event env.tid).waitsFor.keys
      ⟨m.world.afterSyscall env.event env.tid, ∅, ∅⟩
        = ScanState.loop env.event.pass.resolve (r :: post) st := by
    rw [← hkeys, List.append_assoc, List.singleton_append, ScanState.loop_append, h.call.before]
  have hpass : (m.world.afterSyscall env.event env.tid).detectAndResolveDeadlocks env.event.pass
      = (m.world.afterSyscall env.event env.tid).scanThreads env.event.pass.resolve := by
    simp only [World.detectAndResolveDeadlocks, h.active, hgroup, if_neg (Nat.not_le.mpr hlength),
      Bool.not_true, Bool.false_eq_true, ↓reduceIte]
  rw [Continues, turn_of_syscallStop h.stop h.tidAlive hresolving, World.handleEvent_of_tidAlive h.handled,
    hpass, World.scanThreads, hloop]
  cases ScanState.loop env.event.pass.resolve (r :: post) st with
  | returned st' => rfl
  | thrown e st' => rfl
  | undefined => rfl

theorem Continues.of_turn {r : ThreadName} {keys : List ThreadName} {st st' : ScanState}
    (h : m.Continues env (r :: keys) st) (hturn : st.turn (env.event.pass.resolve r) r = .returned st') :
    m.Continues env keys st' := by
  rw [Continues, ScanState.loop, hturn] at h
  exact h

section stray

def threadOf (tid : Pid) : ThreadName := GlobalState.init.identifier tid

def visitStray (s : Tracker) : Tracker :=
  if [threadOf 3, threadOf 1].IsChain s.waitsFor.Edge then
    { s with waitsFor := s.waitsFor.steer [threadOf 3, threadOf 1] }
  else
    s

theorem visitStray_same (s : Tracker) : s.Same (visitStray s) := by
  unfold visitStray
  split
  . next hchain =>
    exact ⟨fun _ => rfl, rfl, WaitsFor.steer_same hchain, fun _ => Iff.rfl, fun _ _ => Iff.rfl,
      fun _ => rfl, rfl⟩
  . exact .refl s

def strayStop (tid : Pid) (uaddr : Addr) (op : UInt64) : TurnEnv :=
  let stop := futexStop tid uaddr op
  { stop with
    event := { stop.event with
      rehash := visitStray
      rehash_same := visitStray_same
      pass := { stop.event.pass with
        resolve _ := ⟨⟨(· ≠ 3), some ⟨⟨fun _ => .error 3, 0⟩, none, some (.exited 0)⟩⟩,
          ⟨(· ≠ 3), ⟨fun _ => none, fun _ _ => none⟩⟩⟩ } } }

/--
Thread 3 waits for a lock of thread 1 and dies. Then the threads 1 and 2 wait for each other.
-/
def strayStops : List TurnEnv :=
  [strayStop 1 0x10000 1, strayStop 2 0x10000 1, strayStop 1 0x10010 1, strayStop 3 0x10010 0,
    strayStop 1 0x10000 0, strayStop 2 0x10010 0]

def strayVector : List ThreadName := [threadOf 3, threadOf 1, threadOf 2, threadOf 1]

theorem exists_booked_strayVector : ∃ m₀, run (fun _ => 0) strayStops = .returned m₀ ∧
    ∃ booked ∈ m₀.world.detectedDeadlocks, booked.cycle = strayVector ∧ booked.resolved = true := by
  apply Outcome.exists_of_returns
  decide +kernel

theorem exists_finds_strayVector : ∃ m, run (fun _ => 0) (strayStops ++ strayStops.take 5) = .returned m ∧
    ∃ st d, m.Finds (strayStop 2 0x10010 0) [] (threadOf 3) st d ∧ d.cycle.reverse = strayVector := by
  have hreturns : (run (fun _ => 0) (strayStops ++ strayStops.take 5)).Returns fun m =>
      let env := strayStop 2 0x10010 0
      let w := m.world.afterSyscall env.event env.tid
      w.monitoringActive = true ∧
      (∃ groupDeadlock ∈ (detectGroupDeadlock env.event.pass.orders w.toTracker).toOption,
        groupDeadlock.groupCycle.length < 2) ∧
      [threadOf 3] <+: w.waitsFor.keys ∧ threadOf 3 ∈ w.waitsFor ∧
      (dfsDeadlock w.waitsFor (threadOf 3) .fresh).1 = true ∧
      (dfsDeadlock w.waitsFor (threadOf 3) .fresh).2.cycle.reverse = strayVector := by
    decide +kernel
  obtain ⟨m, hm, hactive, ⟨groupDeadlock, hgroup, hlength⟩, hkeys, hmem, hfound, hvector⟩ :=
    Outcome.exists_of_returns hreturns
  refine ⟨m, hm, ⟨m.world.afterSyscall (strayStop 2 0x10010 0).event 2, ∅, ∅⟩, _,
    ⟨rfl, rfl, rfl, hactive, ⟨groupDeadlock, ?_, hlength⟩, hkeys, ?_⟩, hvector⟩
  . unfold Except.toOption at hgroup
    split at hgroup
    . next heq => rw [heq, Option.mem_some_iff.mp hgroup]
    . simp at hgroup
  . exact ⟨rfl, hmem, Finset.notMem_empty _, Prod.ext hfound rfl⟩

/-- The second time the vector is left standing, although the first deadlock has been resolved. -/
theorem exists_leftStanding :
    ¬∀ memory before envs m₀ m env pre r st d, before <+: envs → run memory before = .returned m₀ →
      run memory envs = .returned m → Finds m env pre r st d →
        (∃ booked ∈ m₀.world.detectedDeadlocks, booked.cycle = d.cycle.reverse ∧ booked.resolved = true) →
          ScanState.Attempts (env.event.pass.resolve r) r st d.cycle.reverse := by
  intro h
  obtain ⟨m₀, hm₀, booked, hbooked, hcycle, hresolved⟩ := exists_booked_strayVector
  obtain ⟨m, hm, st, d, hfinds, hvector⟩ := exists_finds_strayVector
  have hcycle' : booked.cycle = d.cycle.reverse := hcycle.trans hvector.symm
  have hbefore : strayStops <+: strayStops ++ strayStops.take 5 := List.prefix_append _ _
  have hattempts := h _ _ _ _ _ _ _ _ _ _ hbefore hm₀ hm hfinds ⟨booked, hbooked, hcycle', hresolved⟩
  have hturn := hfinds.turn_of_booked ((remembers_run hbefore hm₀ hm).subset hbooked) hcycle'
  exact ScanState.not_attempts_of_afterDfs hturn hattempts

end stray

/--
The pass attempts to resolve a vector it finds exactly if it is new to `detected_deadlocks`. A vector that has
been booked at some earlier point of the run is left standing: the loop goes on with the next thread.
-/
theorem attempts_iff_new {memory : Memory} {envs : List TurnEnv} {pre : List ThreadName} {r : ThreadName}
    {st : ScanState} {d : DfsState} (hrun : run memory envs = .returned m) (hfinds : m.Finds env pre r st d) :
    (ScanState.Attempts (env.event.pass.resolve r) r st d.cycle.reverse
      ↔
      ∀ existing ∈ st.world.detectedDeadlocks, existing.cycle ≠ d.cycle.reverse) ∧
    ∃ post, m.Continues env (r :: post) st ∧
      ∀ before m₀, before <+: envs → run memory before = .returned m₀ →
        ∀ booked ∈ m₀.world.detectedDeadlocks, booked.cycle = d.cycle.reverse →
          ¬ScanState.Attempts (env.event.pass.resolve r) r st d.cycle.reverse ∧
            m.Continues env post (st.afterDfs d) := by
  have hcall := hfinds.call
  have hiff := ScanState.attempts_iff (env.event.pass.resolve r) hcall.mem hcall.unvisited hcall.result
    hfinds.two_le_length
  obtain ⟨post, hcontinues⟩ := hfinds.continues (not_isResolving_run hrun)
  refine ⟨hiff, post, hcontinues, ?_⟩
  intro before m₀ hbefore hm₀ booked hbooked hcycle
  have hturn := hfinds.turn_of_booked ((remembers_run hbefore hm₀ hrun).subset hbooked) hcycle
  constructor
  . exact ScanState.not_attempts_of_afterDfs hturn
  . exact hcontinues.of_turn hturn

theorem attempts_iff_new_stray : ∃ (m : MainState) (st : ScanState) (d : DfsState),
    m.Finds (strayStop 2 0x10010 0) [] (threadOf 3) st d ∧
      ((ScanState.Attempts ((strayStop 2 0x10010 0).event.pass.resolve (threadOf 3)) (threadOf 3) st
          d.cycle.reverse
        ↔
        ∀ existing ∈ st.world.detectedDeadlocks, existing.cycle ≠ d.cycle.reverse) ∧
      ∃ post, m.Continues (strayStop 2 0x10010 0) post (st.afterDfs d)) := by
  obtain ⟨m₀, hm₀, booked, hbooked, hcycle, -⟩ := exists_booked_strayVector
  obtain ⟨m, hm, st, d, hfinds, hvector⟩ := exists_finds_strayVector
  obtain ⟨hiff, post, -, hstanding⟩ := attempts_iff_new hm hfinds
  refine ⟨m, st, d, hfinds, hiff, post, ?_⟩
  exact (hstanding _ m₀ (List.prefix_append _ _) hm₀ booked hbooked (hcycle.trans hvector.symm)).2

end MainState

end DeadlockInterceptor
