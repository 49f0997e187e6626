import DeadlockInterceptor.Impl.PidUses
import DeadlockInterceptor.Lemmas.Pass

/-!
This module contains that the monitor acts upon the process its global `target_pid` names. The global keeps
its initial value, because `main` stores its argument in a local variable of the same name.
-/

namespace DeadlockInterceptor

def UsesOnly (pid : Pid) (uses : List (PidUse × Pid)) : Prop := ∀ use ∈ uses, use.2 = pid

theorem usesOnly_nil (pid : Pid) : UsesOnly pid [] := by simp [UsesOnly]

theorem usesOnly_usesOf (pid : Pid) (uses : List PidUse) : UsesOnly pid (usesOf pid uses) := by
  intro use huse
  obtain ⟨_, -, rfl⟩ := List.mem_map.mp huse
  rfl

theorem usesOnly_append {pid : Pid} {uses uses' : List (PidUse × Pid)} :
    UsesOnly pid (uses ++ uses') ↔ UsesOnly pid uses ∧ UsesOnly pid uses' :=
  List.forall_mem_append

theorem handleSyscall_targetPid (env : Env) (tid : Pid) (regs : Option Regs) (s : GlobalState) :
    (handleSyscall env tid regs s).targetPid = s.targetPid := by
  obtain ⟨tracker, cache, heq⟩ := handleSyscall_frame env tid regs s
  rw [heq]

section uses

theorem usesOnly_threadIdentifier (proc : ProcFs) (tid : Pid) (s : GlobalState) :
    UsesOnly s.targetPid (GlobalState.threadIdentifier.pidUses proc tid s) := by
  unfold GlobalState.threadIdentifier.pidUses
  split
  . apply usesOnly_nil
  . apply usesOnly_usesOf

theorem usesOnly_handleSyscall (env : Env) (tid : Pid) (regs : Option Regs) (s : GlobalState) :
    UsesOnly s.targetPid (handleSyscall.pidUses env tid regs s) := by
  have hwait : ∀ addr, UsesOnly s.targetPid (GlobalState.onWait.pidUses env tid addr s) := by
    intro addr
    unfold GlobalState.onWait.pidUses
    split
    . apply usesOnly_nil
    . apply usesOnly_threadIdentifier
  have hlock : ∀ addr,
      UsesOnly s.targetPid (GlobalState.onLock.pidUses env tid addr (s.onWake env tid addr)) := by
    intro addr
    unfold GlobalState.onLock.pidUses
    split
    . apply usesOnly_nil
    . exact usesOnly_threadIdentifier env.proc tid (s.onWake env tid addr)
  unfold handleSyscall.pidUses
  cases regs with
  | none => apply usesOnly_nil
  | some regs =>
    simp only
    split_ifs
    . apply hwait
    . rw [usesOnly_append]
      exact ⟨usesOnly_threadIdentifier env.proc tid s, hlock _⟩
    . apply hwait
    . apply usesOnly_nil
    . apply usesOnly_nil

namespace World

theorem usesOnly_strategy1 (env : Strategy1Env) (deadlock : DeadlockInfo) (w : World) :
    UsesOnly w.targetPid (resolveDeadlockStrategy1.pidUses env deadlock w) := by
  unfold resolveDeadlockStrategy1.pidUses
  split
  . apply usesOnly_nil
  . apply usesOnly_nil
  . split
    . apply usesOnly_nil
    . apply usesOnly_usesOf

theorem usesOnly_emergency (env : EmergencyEnv) (deadlock : DeadlockInfo) (w : World) :
    UsesOnly w.targetPid (emergencyDeadlockBreak.pidUses env deadlock w) := by
  unfold emergencyDeadlockBreak.pidUses
  split
  . apply usesOnly_nil
  . apply usesOnly_nil
  . apply usesOnly_threadIdentifier

theorem targetPid_resolveThreadDeadlock (env : ResolveEnv) (cycle : List ThreadName) (w : World) :
    (w.resolveThreadDeadlock env cycle).2.targetPid = w.targetPid :=
  (resolveThreadDeadlock_cases (Prod.eta (w.resolveThreadDeadlock env cycle)).symm).1

theorem forall_resolveThreadDeadlock_uses {P : PidUse × Pid → Prop} {env : ResolveEnv} {cycle : List ThreadName}
    {w : World}
    (hstrategy1 : ∀ deadlock w', deadlock.involvedLocks = findLocksInDeadlock w.toTracker cycle →
      w'.targetPid = w.targetPid → ∀ use ∈ resolveDeadlockStrategy1.pidUses env.strategy1 deadlock w', P use)
    (hemergency : ∀ deadlock w', w'.targetPid = w.targetPid →
      ∀ use ∈ emergencyDeadlockBreak.pidUses env.emergency deadlock w', P use) :
    ∀ use ∈ resolveThreadDeadlock.pidUses env cycle w, P use := by
  unfold resolveThreadDeadlock.pidUses
  simp only
  rw [List.forall_mem_append]
  refine ⟨hstrategy1 _ _ rfl rfl, ?_⟩
  rcases resolveDeadlockStrategy1_cases env.strategy1
      ⟨cycle, findLocksInDeadlock w.toTracker cycle, w.deadlockCounter + 1, false⟩
      { w with deadlockCounter := w.deadlockCounter + 1 } with
    ⟨e, -, heq⟩ | ⟨memory, heq⟩ | ⟨victim, tid, run, status, -, -, -, -, heq⟩
  . rw [heq]
    exact fun _ huse => absurd huse List.not_mem_nil
  . rw [heq]
    exact hemergency _ _ rfl
  . rw [heq]
    exact fun _ huse => absurd huse List.not_mem_nil

theorem usesOnly_resolveThreadDeadlock (env : ResolveEnv) (cycle : List ThreadName) (w : World) :
    UsesOnly w.targetPid (resolveThreadDeadlock.pidUses env cycle w) := by
  apply forall_resolveThreadDeadlock_uses
  . intro deadlock w' _ htarget
    rw [← htarget]
    exact usesOnly_strategy1 env.strategy1 deadlock w'
  . intro deadlock w' htarget
    rw [← htarget]
    exact usesOnly_emergency env.emergency deadlock w'

end World

structure UsesInvariant (I : World → Prop) (P : PidUse × Pid → Prop) : Prop where
  afterSyscall event tid w : I w → I (w.afterSyscall event tid)
  resolveThread env cycle w : I w → I (w.resolveThreadDeadlock env cycle).2
  resolveGroup ho env groupDeadlock w : I w →
    I (World.resolveGroupDeadlock ho env groupDeadlock { w with deadlockCounter := w.deadlockCounter + 1 }).2
  syscall env tid regs w : I w → ∀ use ∈ handleSyscall.pidUses env tid regs w.toGlobalState, P use
  thread env cycle w : I w → ∀ use ∈ World.resolveThreadDeadlock.pidUses env cycle w, P use
  group ho env pidEnv groupDeadlock w : I w → detectGroupDeadlock ho w.toTracker = .ok groupDeadlock →
    ∀ use ∈ World.resolveGroupDeadlock.pidUses ho env pidEnv groupDeadlock
      { w with deadlockCounter := w.deadlockCounter + 1 }, P use

namespace UsesInvariant

variable {I : World → Prop} {P : PidUse × Pid → Prop}

theorem turn (h : UsesInvariant I P) (env : ResolveEnv) (r : ThreadName) {st : ScanState} (hst : I st.world) :
    ∀ use ∈ ScanState.turn.pidUses env r st, P use := by
  unfold ScanState.turn.pidUses
  split
  . simp
  . split
    . split
      . simp
      . simp only
        split
        . exact h.thread env _ st.world hst
        . simp
    . simp

theorem loop (h : UsesInvariant I P) (env : ThreadName → ResolveEnv) (keys : List ThreadName) {st : ScanState}
    (hst : I st.world) : ∀ use ∈ ScanState.loop.pidUses env keys st, P use := by
  induction keys generalizing st with
  | nil => simp [ScanState.loop.pidUses]
  | cons r keys ih =>
    rw [ScanState.loop.pidUses, List.forall_mem_append]
    refine ⟨h.turn (env r) r hst, ?_⟩
    have hturn := ScanState.forall_turn (h.resolveThread (env r)) r hst
    cases hr : st.turn (env r) r with
    | returned st₁ =>
      rw [hr] at hturn
      exact ih hturn
    | thrown e st₁ => simp
    | undefined => simp

theorem pass (h : UsesInvariant I P) (env : PassEnv) (pidEnv : GroupPidEnv) {w : World} (hw : I w) :
    ∀ use ∈ World.detectAndResolveDeadlocks.pidUses env pidEnv w, P use := by
  have hscan : ∀ use ∈ World.scanThreads.pidUses env.resolve w, P use := by
    unfold World.scanThreads.pidUses
    exact h.loop env.resolve w.waitsFor.keys hw
  unfold World.detectAndResolveDeadlocks.pidUses
  split
  . simp
  . split
    . simp
    . next groupDeadlock hgroup =>
      split
      . simp only
        rw [List.forall_mem_append]
        refine ⟨h.group env.orders env.group pidEnv groupDeadlock w hw hgroup, ?_⟩
        exact fun _ huse => absurd huse List.not_mem_nil
      . exact hscan

theorem handleEvent (h : UsesInvariant I P) (env : EventEnv) (pidEnv : GroupPidEnv) (tid : Pid) {w : World}
    (hw : I w) : ∀ use ∈ World.handleEvent.pidUses env pidEnv tid w, P use := by
  unfold World.handleEvent.pidUses
  split
  . simp
  . simp only
    rw [List.forall_mem_append]
    exact ⟨h.syscall env.call tid env.regs w hw, h.pass env.pass pidEnv (h.afterSyscall env tid w hw)⟩

theorem forall_handleEvent (h : UsesInvariant I P) (env : EventEnv) (tid : Pid) {w : World} (hw : I w) :
    (w.handleEvent env tid).Forall I := by
  apply World.forall_handleEvent
  . exact fun r => h.resolveThread (env.pass.resolve r)
  . exact h.resolveGroup
  . exact fun _ => hw
  . exact fun _ => h.afterSyscall env tid w hw

theorem mainTurn (h : UsesInvariant I P) (env : TurnEnv) (pidEnv : GroupPidEnv) {m : MainState}
    (hm : I m.world) : ∀ use ∈ MainState.turn.pidUses env pidEnv m, P use := by
  unfold MainState.turn.pidUses
  split_ifs
  . simp
  . simp
  . simp
  . exact h.handleEvent env.event pidEnv env.tid hm
  . simp
  . simp

theorem forall_mainTurn (h : UsesInvariant I P) (env : TurnEnv) {m : MainState} (hm : I m.world) :
    (m.turn env).Forall fun m => I m.world :=
  MainState.forall_turn hm fun _ => h.forall_handleEvent env.event env.tid hm

theorem mainLoop (h : UsesInvariant I P) (envs : List (TurnEnv × GroupPidEnv)) {m : MainState}
    (hm : I m.world) : ∀ use ∈ MainState.loop.pidUses envs (.returned m), P use := by
  induction envs generalizing m with
  | nil => simp [MainState.loop.pidUses]
  | cons env envs ih =>
    rw [MainState.loop.pidUses, List.forall_mem_append]
    refine ⟨h.mainTurn env.1 env.2 hm, ?_⟩
    have hturn := h.forall_mainTurn env.1 hm
    cases hr : m.turn env.1 with
    | returned m' =>
      rw [hr] at hturn
      exact ih hturn
    | thrown e m' => cases envs <;> simp [MainState.loop.pidUses]
    | undefined => cases envs <;> simp [MainState.loop.pidUses]

end UsesInvariant

theorem usesInvariant_targetPid (pid : Pid) :
    UsesInvariant (fun w => w.targetPid = pid) fun use => use.2 = pid where
  afterSyscall event tid w h := by
    rw [← h]
    exact handleSyscall_targetPid event.call tid event.regs w.toGlobalState
  resolveThread env cycle w h := by
    rw [← h]
    exact World.targetPid_resolveThreadDeadlock env cycle w
  resolveGroup _ _ _ _ h := h
  syscall env tid regs w h := by
    rw [← h]
    exact usesOnly_handleSyscall env tid regs w.toGlobalState
  thread env cycle w h := by
    rw [← h]
    exact World.usesOnly_resolveThreadDeadlock env cycle w
  group _ _ _ _ w h _ := by
    rw [← h]
    exact usesOnly_usesOf w.targetPid _

end uses

section main

/--
The two threads each wake a futex, which makes them the owners, and then wait for the one of the other. The
last stop is the entry of the wait that closes the cycle.
-/
def crossStops : List (TurnEnv × GroupPidEnv) :=
  [futexStop 1 0x10000 1, futexStop 1 0x10000 1, futexStop 2 0x10010 1, futexStop 2 0x10010 1,
    futexStop 2 0x10000 0, futexStop 1 0x10010 0].map (·, ⟨[], fun _ => false, false, none⟩)

theorem kill_mem_crossStops :
    (.kill, 0) ∈ MainState.loop.pidUses crossStops (.returned (.init fun _ => 1)) := by
  decide +kernel

/--
The process that is acted upon is the one of the command line exactly if its pid is given as 0, which no
process has.
-/
theorem main_pidUses_iff (targetPid : Pid) :
    (∀ memory envs, UsesOnly targetPid (main.pidUses targetPid memory envs)) ↔ targetPid = 0 := by
  constructor
  . intro h
    have huse := h (fun _ => 1) crossStops (.kill, 0) (by
      rw [main.pidUses, List.mem_append, List.mem_append]
      exact .inl (.inr kill_mem_crossStops))
    exact huse.symm
  . rintro rfl memory envs
    rw [main.pidUses, usesOnly_append, usesOnly_append]
    refine ⟨⟨?_, (usesInvariant_targetPid 0).mainLoop envs rfl⟩, ?_⟩
    . exact usesOnly_usesOf 0 [.listThreads]
    . exact usesOnly_usesOf 0 [.listThreads]

/-- The monitor of the process 1234 sends `SIGCONT` to pid 0, which is its own process group. -/
theorem exists_otherProcess :
    ¬∀ (targetPid : Pid) (memory : Memory) (envs : List (TurnEnv × GroupPidEnv)),
      UsesOnly targetPid (main.pidUses targetPid memory envs) := by
  intro h
  have huse := h 1234 (fun _ => 1) crossStops (.kill, 0) (by
    rw [main.pidUses, List.mem_append, List.mem_append]
    exact .inl (.inr kill_mem_crossStops))
  exact absurd huse (by decide)

end main

end DeadlockInterceptor
