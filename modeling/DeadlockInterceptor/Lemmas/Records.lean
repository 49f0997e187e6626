import DeadlockInterceptor.Lemmas.Observing

/-!
This module contains what `detected_deadlocks` holds in every run: which numbers and vectors the records have, and
what the wait-for graph was like when they were made.
-/

namespace DeadlockInterceptor

namespace World

theorem record_detectedDeadlocks (deadlock : DeadlockInfo) {w : World} {records : List DeadlockInfo}
    (h : w.detectedDeadlocks = records) :
    (resolveThreadDeadlock.record deadlock w).detectedDeadlocks = records ++ [deadlock] :=
  congrArg (· ++ [deadlock]) h

/-- An attempt to resolve a vector records it under the next number, or nothing if an exception leaves it. -/
theorem resolveThreadDeadlock_detectedDeadlocks (env : ResolveEnv) (cycle : List ThreadName) (w : World) :
    (w.resolveThreadDeadlock env cycle).2.detectedDeadlocks = w.detectedDeadlocks ∨
    ∃ deadlock : DeadlockInfo, deadlock.cycle = cycle ∧ deadlock.deadlockId = w.deadlockCounter + 1 ∧
      (w.resolveThreadDeadlock env cycle).2.detectedDeadlocks = w.detectedDeadlocks ++ [deadlock] := by
  unfold resolveThreadDeadlock
  simp only
  generalize hdeadlock : DeadlockInfo.mk cycle _ _ false = deadlock
  have h₁ := (resolveDeadlockStrategy1_booked env.strategy1 deadlock
    { w with deadlockCounter := w.deadlockCounter + 1 }).1
  split
  . next heq =>
    rw [heq] at h₁
    exact .inl h₁
  . next heq =>
    rw [heq] at h₁
    refine .inr ⟨_, ?_, ?_, record_detectedDeadlocks _ h₁⟩
    . rfl
    . rfl
  . next w₁ heq =>
    rw [heq] at h₁
    have h₂ := (emergencyDeadlockBreak_booked env.emergency deadlock w₁).1
    split
    . next heq₂ =>
      rw [heq₂] at h₂
      exact .inl (h₂.trans h₁)
    . next heq₂ =>
      rw [heq₂] at h₂
      refine .inr ⟨_, ?_, ?_, record_detectedDeadlocks _ (h₂.trans h₁)⟩
      . rfl
      . rfl

end World

section scanned

namespace ScanState

structure Scanned (env : ThreadName → ResolveEnv) (w : World) (r : ThreadName) (st : ScanState)
    (v : List ThreadName) : Prop where
  call : ∃ pre post d, w.waitsFor.keys = pre ++ r :: post ∧ IsCall env ⟨w, ∅, ∅⟩ pre r st true d ∧ d.cycle.reverse = v
  reported : Reported w r v

variable {env : ThreadName → ResolveEnv} {w : World} {st : ScanState} {I : World → Prop}

/-- The rule for what a turn keeps, if only the vectors that are returned in it are resolved, and only the new ones. -/
theorem Within.forall_turn (h : Within w st) {r : ThreadName}
    (hthread : ∀ d, r ∈ st.world.waitsFor → r ∉ st.visited → dfsDeadlock st.world.waitsFor r st.dfsState = (true, d) →
      Reported w r d.cycle.reverse → (∀ existing ∈ st.world.detectedDeadlocks, existing.cycle ≠ d.cycle.reverse) →
        I (st.world.resolveThreadDeadlock (env r) d.cycle.reverse).2)
    (hst : I st.world) : (st.turn (env r) r).Forall fun st' => I st'.world := by
  rcases turn_cases (env r) r st with ⟨-, heq⟩ | ⟨hmem, hvis, b, d, hd, hcases⟩
  . rw [heq]
    exact hst
  . cases b with
    | false =>
      rcases hcases with ⟨-, heq⟩ | ⟨hfalse, -⟩
      . rw [heq]
        exact hst
      . cases hfalse
    | true =>
      have hreported := (h.reported hvis hd).1
      by_cases hnew : ∀ existing ∈ st.world.detectedDeadlocks, existing.cycle ≠ d.cycle.reverse
      . have hw := hthread d hmem hvis hd hreported hnew
        rw [turn_of_new (env r) st hmem hvis hd hreported.two_le_length hnew]
        split
        . next heq =>
          rw [heq] at hw
          exact hw
        . next heq =>
          rw [heq] at hw
          split
          . trivial
          . exact hw
      . push Not at hnew
        rw [turn_of_recorded (env r) st hmem hvis hd hnew]
        exact hst

theorem Within.forall_loop
    (hthread : ∀ r st v, Scanned env w r st v → (∀ existing ∈ st.world.detectedDeadlocks, existing.cycle ≠ v) →
      I st.world → I (st.world.resolveThreadDeadlock (env r) v).2)
    {pre keys : List ThreadName} (hkeys : w.waitsFor.keys = pre ++ keys) (h : Within w st)
    (hpre : loop env pre ⟨w, ∅, ∅⟩ = .returned st) (hst : I st.world) :
    (loop env keys st).Forall fun st' => I st'.world := by
  induction keys generalizing pre st with
  | nil => exact hst
  | cons r keys ih =>
    have hturn : (st.turn (env r) r).Forall fun st' => I st'.world := by
      refine h.forall_turn (fun d hmem hvis hd hreported hnew => ?_) hst
      exact hthread r st _ ⟨⟨pre, keys, d, hkeys, ⟨hpre, hmem, hvis, hd⟩, rfl⟩, hreported⟩ hnew hst
    rw [loop]
    cases hr : st.turn (env r) r with
    | returned st₁ =>
      rw [hr] at hturn
      have hnext : loop env (pre ++ [r]) ⟨w, ∅, ∅⟩ = .returned st₁ := loop_concat_eq_returned.mpr ⟨st, hpre, hr⟩
      refine ih ?_ (h.turn hr) hnext hturn
      rw [hkeys, List.append_assoc, List.singleton_append]
    | thrown e st₁ =>
      rw [hr] at hturn
      exact hturn
    | undefined => trivial

end ScanState

namespace World

variable {w : World} {I : World → Prop}

theorem forall_pass_of_scanned (env : PassEnv)
    (hthread : ∀ r st v, ScanState.Scanned env.resolve w r st v →
      (∀ existing ∈ st.world.detectedDeadlocks, existing.cycle ≠ v) →
        I st.world → I (st.world.resolveThreadDeadlock (env.resolve r) v).2)
    (hgroup : ∀ groupDeadlock, detectGroupDeadlock env.orders w.toTracker = .ok groupDeadlock →
      I (resolveGroupDeadlock env.orders env.group groupDeadlock
        { w with deadlockCounter := w.deadlockCounter + 1 }).2)
    (h : I w) : (w.detectAndResolveDeadlocks env).Forall I := by
  have hscan : (w.scanThreads env.resolve).Forall I := by
    have hloop := ScanState.Within.forall_loop hthread (w.waitsFor.keys.nil_append).symm (ScanState.within_init w) rfl h
    unfold scanThreads
    cases hl : ScanState.loop env.resolve w.waitsFor.keys ⟨w, ∅, ∅⟩ with
    | returned st =>
      rw [hl] at hloop
      exact hloop
    | thrown e st =>
      rw [hl] at hloop
      exact hloop
    | undefined => trivial
  unfold detectAndResolveDeadlocks
  split
  . exact h
  . split
    . exact h
    . next groupDeadlock hdetect =>
      split
      . exact hgroup groupDeadlock hdetect
      . exact hscan

end World

end scanned

structure Numbered (w : World) : Prop where
  increasing : w.detectedDeadlocks.Pairwise fun deadlock deadlock' => deadlock.deadlockId < deadlock'.deadlockId
  counted : ∀ deadlock ∈ w.detectedDeadlocks, 0 < deadlock.deadlockId ∧ deadlock.deadlockId ≤ w.deadlockCounter
  different : w.detectedDeadlocks.Pairwise fun deadlock deadlock' => deadlock.cycle ≠ deadlock'.cycle

theorem Numbered.of_le {w w' : World} (h : Numbered w) (hrecords : w'.detectedDeadlocks = w.detectedDeadlocks)
    (hcounter : w.deadlockCounter ≤ w'.deadlockCounter) : Numbered w' where
  increasing := hrecords ▸ h.increasing
  counted deadlock hdeadlock := by
    rw [hrecords] at hdeadlock
    exact ⟨(h.counted deadlock hdeadlock).1, (h.counted deadlock hdeadlock).2.trans hcounter⟩
  different := hrecords ▸ h.different

theorem Numbered.resolveThreadDeadlock {w : World} (h : Numbered w) (env : ResolveEnv) {cycle : List ThreadName}
    (hnew : ∀ existing ∈ w.detectedDeadlocks, existing.cycle ≠ cycle) :
    Numbered (w.resolveThreadDeadlock env cycle).2 := by
  have hcounter := (World.resolveThreadDeadlock_booked env cycle w).2
  rcases World.resolveThreadDeadlock_detectedDeadlocks env cycle w with heq | ⟨deadlock, hcycle, hid, heq⟩
  . exact h.of_le heq (by omega)
  . constructor
    . rw [heq, List.pairwise_append]
      refine ⟨h.increasing, List.pairwise_singleton _ _, ?_⟩
      intro existing hexisting deadlock' hdeadlock'
      rw [List.mem_singleton.mp hdeadlock', hid]
      exact Nat.lt_succ_of_le (h.counted existing hexisting).2
    . intro existing hexisting
      rw [heq, List.mem_append, List.mem_singleton] at hexisting
      rcases hexisting with hexisting | rfl
      . have hcounted := h.counted existing hexisting
        omega
      . omega
    . rw [heq, List.pairwise_append]
      refine ⟨h.different, List.pairwise_singleton _ _, ?_⟩
      intro existing hexisting deadlock' hdeadlock'
      rw [List.mem_singleton.mp hdeadlock', hcycle]
      exact hnew existing hexisting

namespace MainState

/--
The record was made in a turn of the run: the scan of the threads returned its vector there, which was not recorded
before the turn and is after it. The vector was a walk of the wait-for graph at the beginning of the pass, and each of
its threads waited, directly or not, for a thread on a directed cycle.
-/
def Stems (memory : Memory) (envs : List TurnEnv) (deadlock : DeadlockInfo) : Prop :=
  ∃ before env m m' r st, before ++ [env] <+: envs ∧ run memory before = .returned m ∧ env.isHandled = true ∧
    ScanState.Scanned env.event.pass.resolve (m.world.afterSyscall env.event env.tid) r st deadlock.cycle ∧
    (∀ existing ∈ m.world.detectedDeadlocks, existing.cycle ≠ deadlock.cycle) ∧
    run memory (before ++ [env]) = .returned m' ∧ deadlock ∈ m'.world.detectedDeadlocks

theorem Stems.mono {memory : Memory} {envs envs' : List TurnEnv} {deadlock : DeadlockInfo}
    (h : Stems memory envs deadlock) (hmore : envs <+: envs') : Stems memory envs' deadlock := by
  obtain ⟨before, env, m, m', r, st, hbefore, hrest⟩ := h
  exact ⟨before, env, m, m', r, st, hbefore.trans hmore, hrest⟩

structure Recorded (memory : Memory) (envs : List TurnEnv) (m : MainState) : Prop where
  numbered : Numbered m.world
  stems : ∀ deadlock ∈ m.world.detectedDeadlocks, Stems memory envs deadlock

/--
What the pass of a turn keeps that started with `w₀`: the records of before stay, and the new ones are of vectors that
the scan has returned and that were not recorded then.
-/
structure Recording (env : TurnEnv) (w₀ w : World) : Prop where
  numbered : Numbered w
  old : w₀.detectedDeadlocks ⊆ w.detectedDeadlocks
  new : ∀ deadlock ∈ w.detectedDeadlocks, deadlock ∈ w₀.detectedDeadlocks ∨
    ((∀ existing ∈ w₀.detectedDeadlocks, existing.cycle ≠ deadlock.cycle) ∧
      ∃ r st, ScanState.Scanned env.event.pass.resolve w₀ r st deadlock.cycle)

theorem recording_start {env : TurnEnv} {w : World} (h : Numbered w) : Recording env w w :=
  ⟨h, List.Subset.refl _, fun _ hdeadlock => .inl hdeadlock⟩

theorem Recording.resolveThreadDeadlock {env : TurnEnv} {w₀ : World} {r : ThreadName} {st : ScanState}
    {v : List ThreadName} (h : Recording env w₀ st.world)
    (hscanned : ScanState.Scanned env.event.pass.resolve w₀ r st v)
    (hnew : ∀ existing ∈ st.world.detectedDeadlocks, existing.cycle ≠ v) (resolve : ResolveEnv) :
    Recording env w₀ (st.world.resolveThreadDeadlock resolve v).2 where
  numbered := h.numbered.resolveThreadDeadlock resolve hnew
  old := by
    rcases World.resolveThreadDeadlock_detectedDeadlocks resolve v st.world with heq | ⟨deadlock, -, -, heq⟩
    . rw [heq]
      exact h.old
    . rw [heq]
      exact List.Subset.trans h.old (List.subset_append_left _ _)
  new := by
    rcases World.resolveThreadDeadlock_detectedDeadlocks resolve v st.world with heq | ⟨deadlock, hcycle, -, heq⟩
    . rw [heq]
      exact h.new
    . rw [heq]
      intro deadlock' hdeadlock'
      rcases List.mem_append.mp hdeadlock' with hdeadlock' | hdeadlock'
      . exact h.new deadlock' hdeadlock'
      . rw [List.mem_singleton.mp hdeadlock', hcycle]
        exact .inr ⟨fun existing hexisting => hnew existing (h.old hexisting), r, st, hscanned⟩

theorem recorded_turn {memory : Memory} {envs : List TurnEnv} {m m' : MainState} (hrun : run memory envs = .returned m)
    (h : Recorded memory envs m) {env : TurnEnv} (hturn : m.turn env = .returned m') :
    Recorded memory (envs ++ [env]) m' := by
  have hresolving := not_isResolving_run hrun
  have hold : ∀ deadlock ∈ m.world.detectedDeadlocks, Stems memory (envs ++ [env]) deadlock :=
    fun deadlock hdeadlock => (h.stems deadlock hdeadlock).mono (List.prefix_append envs [env])
  cases hhandled : env.isHandled with
  | false =>
    rw [turn_of_not_isHandled hhandled hresolving, Outcome.returned.injEq] at hturn
    rw [← hturn]
    exact ⟨h.numbered, hold⟩
  | true =>
    obtain ⟨tracker, cache, hglobals⟩ := GlobalState.observe_frame m.world.toGlobalState env
    have hworld := World.afterSyscall_eq hhandled m.world
    rw [hglobals] at hworld
    have hrecords : (m.world.afterSyscall env.event env.tid).detectedDeadlocks = m.world.detectedDeadlocks := by
      rw [hworld]
    have hstart : Numbered (m.world.afterSyscall env.event env.tid) := by
      rw [hworld]
      exact h.numbered.of_le rfl le_rfl
    have hpass := World.forall_pass_of_scanned env.event.pass
      (I := Recording env (m.world.afterSyscall env.event env.tid))
      (fun r _ _ hscanned hnew hst => hst.resolveThreadDeadlock hscanned hnew (env.event.pass.resolve r))
      (fun _ _ => ⟨hstart.of_le rfl (Nat.le_succ _), List.Subset.refl _, fun _ hdeadlock => .inl hdeadlock⟩)
      (recording_start hstart)
    have hrecording := forall_turn_of_pass hhandled hresolving hpass
    rw [hturn] at hrecording
    refine ⟨hrecording.numbered, fun deadlock hdeadlock => ?_⟩
    rcases hrecording.new deadlock hdeadlock with hmem | ⟨hnew, r, st, hscanned⟩
    . exact hold deadlock (hrecords ▸ hmem)
    . refine ⟨envs, env, m, m', r, st, List.prefix_refl _, hrun, hhandled, hscanned, ?_, ?_, hdeadlock⟩
      . rw [← hrecords]
        exact hnew
      . rw [run_concat, hrun]
        exact hturn

/-- In every run the records are numbered, different, and of threads that have been deadlocked. -/
theorem recorded_run (memory : Memory) (envs : List TurnEnv) :
    (run memory envs).Forall (Recorded memory envs) := by
  apply forall_run
  . exact ⟨⟨.nil, by simp [init, GlobalState.init], .nil⟩, by simp [init, GlobalState.init]⟩
  . intro envs env m hrun h
    cases hturn : m.turn env with
    | returned m' => exact recorded_turn hrun h hturn
    | thrown e m' =>
      apply absurd _ (run_ne_thrown memory (envs ++ [env]) e m')
      rw [run_concat, hrun]
      exact hturn
    | undefined => trivial

end MainState

end DeadlockInterceptor
