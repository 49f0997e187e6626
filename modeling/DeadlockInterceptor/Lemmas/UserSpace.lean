import DeadlockInterceptor.Lemmas.PidUses
import DeadlockInterceptor.Lemmas.Release
import DeadlockInterceptor.Lemmas.TrackedAddresses
import DeadlockInterceptor.Lemmas.UnlockNeighbors

/-!
This module contains that the monitor deals with addresses in user space only: in every run it tracks, reports
and writes to no other ones.
-/

namespace DeadlockInterceptor

def PidUse.StaysInUserSpace : PidUse → Prop
  | .unlockerCall call => ∃ lockAddr, InUserSpace lockAddr ∧ call.IsFor lockAddr
  | .pwrite addr => InUserSpace addr
  | _ => True

namespace FutexUnlocker

theorem unlockInvariant_isFor_mem (kernel : Kernel) {locks : List Addr} {lockAddr : Addr} (h : lockAddr ∈ locks) :
    UnlockInvariant kernel lockAddr fun u => ∀ e ∈ u.log, ∃ addr ∈ locks, e.1.IsFor addr where
  call c hc u hu := by
    intro e he
    rcases List.mem_append.mp he with he | he
    . exact hu e he
    . rw [List.mem_singleton.mp he]
      exact ⟨lockAddr, h, hc⟩
  attached _ hu := hu
  counters _ _ _ hu := hu

end FutexUnlocker

theorem ShadowRun.exists_isFor_of_mem_calls {run : ShadowRun} {locks : List Addr} {memory : Memory}
    {call : SysCall} (h : call ∈ run.calls locks memory) : ∃ lockAddr ∈ locks, call.IsFor lockAddr := by
  have hmem : call ∈ (run.unlocker locks memory).log.map Prod.fst := by
    unfold ShadowRun.calls at h
    simp only at h
    split at h
    . exact h
    . exact List.mem_of_mem_take h
  have hlog : ∀ e ∈ (run.unlocker locks memory).log, ∃ lockAddr ∈ locks, e.1.IsFor lockAddr :=
    FutexUnlocker.preserves_unlockMultiple
      (fun _ hlockAddr => FutexUnlocker.unlockInvariant_isFor_mem run.mortalKernel hlockAddr) 7 { memory := memory }
      fun _ he => absurd he List.not_mem_nil
  obtain ⟨e, he, rfl⟩ := List.mem_map.mp hmem
  exact hlog e he

section uses

def StayInUserSpace (uses : List (PidUse × Pid)) : Prop := ∀ use ∈ uses, use.1.StaysInUserSpace

theorem stayInUserSpace_usesOf {pid : Pid} {uses : List PidUse} :
    StayInUserSpace (usesOf pid uses) ↔ ∀ use ∈ uses, use.StaysInUserSpace := by
  simp [StayInUserSpace, usesOf]

theorem stayInUserSpace_threadIdentifier (proc : ProcFs) (tid : Pid) (s : GlobalState) :
    StayInUserSpace (GlobalState.threadIdentifier.pidUses proc tid s) := by
  unfold GlobalState.threadIdentifier.pidUses
  split
  . simp [StayInUserSpace]
  . rw [stayInUserSpace_usesOf]
    split_ifs <;> simp [PidUse.StaysInUserSpace]

theorem stayInUserSpace_handleSyscall (env : Env) (tid : Pid) (regs : Option Regs) (s : GlobalState) :
    StayInUserSpace (handleSyscall.pidUses env tid regs s) := by
  have hjunk : ∀ addr s, StayInUserSpace
      (if junkAddr addr = true then [] else GlobalState.threadIdentifier.pidUses env.proc tid s) := by
    intro addr s
    split
    . simp [StayInUserSpace]
    . apply stayInUserSpace_threadIdentifier
  unfold handleSyscall.pidUses
  cases regs with
  | none => simp [StayInUserSpace]
  | some regs =>
    simp only
    split_ifs
    . apply hjunk
    . rw [StayInUserSpace, List.forall_mem_append]
      exact ⟨stayInUserSpace_threadIdentifier env.proc tid s, hjunk regs.rdi _⟩
    . apply hjunk
    . simp [StayInUserSpace]
    . simp [StayInUserSpace]

namespace World

variable {w : World}

theorem stayInUserSpace_strategy1 {deadlock : DeadlockInfo} (h : ∀ a ∈ deadlock.involvedLocks, InUserSpace a)
    (env : Strategy1Env) (w : World) : StayInUserSpace (resolveDeadlockStrategy1.pidUses env deadlock w) := by
  unfold resolveDeadlockStrategy1.pidUses
  split
  . simp [StayInUserSpace]
  . simp [StayInUserSpace]
  . split
    . simp [StayInUserSpace]
    . simp only
      rw [stayInUserSpace_usesOf, List.forall_mem_cons]
      refine ⟨trivial, ?_⟩
      split
      . simp
      . rw [List.forall_mem_cons]
        refine ⟨trivial, ?_⟩
        intro use huse
        obtain ⟨call, hcall, rfl⟩ := List.mem_map.mp huse
        obtain ⟨lockAddr, hlockAddr, hfor⟩ := ShadowRun.exists_isFor_of_mem_calls hcall
        exact ⟨lockAddr, h lockAddr hlockAddr, hfor⟩

theorem Confined.stayInUserSpace_resolveThreadDeadlock (h : w.Confined) (env : ResolveEnv)
    (cycle : List ThreadName) : StayInUserSpace (resolveThreadDeadlock.pidUses env cycle w) := by
  apply forall_resolveThreadDeadlock_uses
  . intro deadlock w' hlocks _
    apply stayInUserSpace_strategy1
    intro a ha
    rw [hlocks] at ha
    exact h.tracked a (tracks_of_mem_findLocksInDeadlock ha)
  . intro deadlock w' _
    unfold emergencyDeadlockBreak.pidUses
    split
    . simp
    . simp
    . apply stayInUserSpace_threadIdentifier

theorem Confined.stayInUserSpace_resolveGroupDeadlock (h : w.Confined) {ho : HashOrders} (env : GroupEnv)
    (pidEnv : GroupPidEnv) {groupDeadlock : GroupDeadlockInfo}
    (hgroup : detectGroupDeadlock ho w.toTracker = .ok groupDeadlock) :
    StayInUserSpace (resolveGroupDeadlock.pidUses ho env pidEnv groupDeadlock
      { w with deadlockCounter := w.deadlockCounter + 1 }) := by
  have hwrites : ∀ use ∈ (groupDeadlock.allLocks ho).map PidUse.pwrite, use.StaysInUserSpace := by
    intro use huse
    obtain ⟨a, ha, rfl⟩ := List.mem_map.mp huse
    obtain ⟨res, hres, ha⟩ := GroupDeadlockInfo.mem_allLocks.mp ha
    exact h.tracked a (tracks_of_mentions hgroup (.inr ⟨res, hres, .inl ha⟩))
  unfold resolveGroupDeadlock.pidUses
  rw [stayInUserSpace_usesOf]
  simp only [List.forall_mem_append]
  refine ⟨⟨⟨⟨⟨⟨⟨?_, ?_⟩, ?_⟩, ?_⟩, ?_⟩, ?_⟩, ?_⟩, ?_⟩
  . simp [PidUse.StaysInUserSpace]
  . simp [PidUse.StaysInUserSpace]
  . split_ifs <;> simp [PidUse.StaysInUserSpace]
  . simp [PidUse.StaysInUserSpace]
  . split_ifs
    . exact hwrites
    . simp
  . simp [PidUse.StaysInUserSpace]
  . split
    . simp
    . simp only [List.mem_flatten, List.mem_replicate]
      rintro use ⟨uses, ⟨-, rfl⟩, huse⟩
      revert use
      simp [PidUse.StaysInUserSpace]
  . simp [PidUse.StaysInUserSpace]

end World

theorem usesInvariant_confined :
    UsesInvariant World.Confined fun use => use.1.StaysInUserSpace where
  afterSyscall event tid _ h := h.afterSyscall event tid
  resolveThread env cycle _ h := h.resolveThreadDeadlock env cycle
  resolveGroup ho env groupDeadlock _ h := h.resolveGroupDeadlock ho env groupDeadlock
  syscall env tid regs w _ := stayInUserSpace_handleSyscall env tid regs w.toGlobalState
  thread env cycle _ h := h.stayInUserSpace_resolveThreadDeadlock env cycle
  group _ env pidEnv _ _ h hgroup := h.stayInUserSpace_resolveGroupDeadlock env pidEnv hgroup

end uses

/--
What may happen to the maps, in any order: the calls of the handlers with any address, the resolutions of
deadlocks and the clean-ups. The resolvers are handed what the detection finds.
-/
inductive Action where
  | onLock (env : Env) (tid : Pid) (addr : Addr)
  | onWait (env : Env) (tid : Pid) (addr : Addr)
  | onWake (env : Env) (tid : Pid) (addr : Addr)
  | rehash (f : Tracker → Tracker) (hf : ∀ s, Tracker.Same s (f s))
  | resolveThreads (env : ResolveEnv) (cycle : List ThreadName)
  | resolveGroups (ho : HashOrders) (env : GroupEnv) (pidEnv : GroupPidEnv)
  | cleanupParent (proc : ProcFs) (victimTid : Pid) (deadlockLocks : List Addr)

namespace World

def act (w : World) : Action → World
  | .onLock env tid addr => { w with toGlobalState := w.toGlobalState.onLock env tid addr }
  | .onWait env tid addr => { w with toGlobalState := w.toGlobalState.onWait env tid addr }
  | .onWake env tid addr => { w with toGlobalState := w.toGlobalState.onWake env tid addr }
  | .rehash f _ => { w with toTracker := f w.toTracker }
  | .resolveThreads env cycle => (w.resolveThreadDeadlock env cycle).2
  | .resolveGroups ho env _ =>
    match detectGroupDeadlock ho w.toTracker with
    | .error _ => w
    | .ok groupDeadlock =>
      (resolveGroupDeadlock ho env groupDeadlock { w with deadlockCounter := w.deadlockCounter + 1 }).2
  | .cleanupParent proc victimTid deadlockLocks => (w.cleanupParentProcess proc victimTid deadlockLocks).2

def act.pidUses (w : World) : Action → List (PidUse × Pid)
  | .resolveThreads env cycle => resolveThreadDeadlock.pidUses env cycle w
  | .resolveGroups ho env pidEnv =>
    match detectGroupDeadlock ho w.toTracker with
    | .error _ => []
    | .ok groupDeadlock =>
      resolveGroupDeadlock.pidUses ho env pidEnv groupDeadlock { w with deadlockCounter := w.deadlockCounter + 1 }
  | _ => []

end World

namespace GlobalState

theorem onLock_detectedDeadlocks (env : Env) (tid : Pid) (addr : Addr) (s : GlobalState) :
    (s.onLock env tid addr).detectedDeadlocks = s.detectedDeadlocks := by
  unfold onLock
  split <;> rfl

theorem onWait_detectedDeadlocks (env : Env) (tid : Pid) (addr : Addr) (s : GlobalState) :
    (s.onWait env tid addr).detectedDeadlocks = s.detectedDeadlocks := by
  unfold onWait
  split <;> rfl

end GlobalState

namespace World

theorem Confined.act {w : World} (h : w.Confined) (action : Action) : (w.act action).Confined := by
  cases action with
  | onLock env tid addr =>
    apply h.of_tracks
    . exact fun a => GlobalState.tracks_onLock
    . exact GlobalState.onLock_detectedDeadlocks env tid addr w.toGlobalState
  | onWait env tid addr =>
    apply h.of_tracks
    . exact fun a => GlobalState.tracks_onWait
    . exact GlobalState.onWait_detectedDeadlocks env tid addr w.toGlobalState
  | onWake env tid addr =>
    apply h.of_tracks
    . exact fun a ha => .inl (GlobalState.tracks_onWake ha)
    . rfl
  | rehash f hf =>
    apply h.of_tracks
    . exact fun a ha => .inl ((hf _).tracks ha)
    . rfl
  | resolveThreads env cycle => exact h.resolveThreadDeadlock env cycle
  | resolveGroups ho env pidEnv =>
    unfold World.act
    simp only
    split
    . exact h
    . exact h.resolveGroupDeadlock ho env _
  | cleanupParent proc victimTid deadlockLocks =>
    apply h.of_tracks
    . exact fun a ha => .inl (tracks_cleanupParentProcess ha)
    . rfl

theorem Confined.stayInUserSpace_act {w : World} (h : w.Confined) (action : Action) :
    StayInUserSpace (act.pidUses w action) := by
  unfold act.pidUses
  split
  . exact h.stayInUserSpace_resolveThreadDeadlock _ _
  . split
    . simp [StayInUserSpace]
    . next hgroup => exact h.stayInUserSpace_resolveGroupDeadlock _ _ hgroup
  . simp [StayInUserSpace]

/--
All addresses that are tracked, that have been reported, or that could be reported now, are in user space.
-/
structure OnlyUserSpace (w : World) : Prop extends Confined w where
  found : ∀ cycle, ∀ a ∈ findLocksInDeadlock w.toTracker cycle, InUserSpace a
  foundGroups : ∀ ho groupDeadlock, detectGroupDeadlock ho w.toTracker = .ok groupDeadlock →
    ∀ a, groupDeadlock.Mentions a → InUserSpace a

theorem Confined.onlyUserSpace {w : World} (h : w.Confined) : w.OnlyUserSpace where
  toConfined := h
  found _ a ha := h.tracked a (tracks_of_mem_findLocksInDeadlock ha)
  foundGroups _ _ hgroup a ha := h.tracked a (tracks_of_mentions hgroup ha)

end World

/--
In every run the addresses that are tracked, reported, handed to the unlocker or written by the resolution of
groups are in user space. This holds for handlers and resolutions in any order, and for the order `main` has.
-/
theorem onlyUserSpace_run (memory : Memory) :
    (∀ actions,
      Run.States World.act World.OnlyUserSpace ⟨.init, memory⟩ actions ∧
      Run.Steps World.act (fun w action => StayInUserSpace (World.act.pidUses w action)) ⟨.init, memory⟩
        actions) ∧
    (∀ envs, (MainState.run memory envs).Forall fun m => m.world.OnlyUserSpace) ∧
    (∀ targetPid envs, StayInUserSpace (main.pidUses targetPid memory envs)) := by
  have hinit := World.confined_init memory
  have hact : ∀ w action, World.Confined w → (World.act w action).Confined := fun _ action h => h.act action
  refine ⟨fun actions => ⟨?_, ?_⟩, ?_, ?_⟩
  . apply Run.States.imp (I := World.Confined)
    . exact fun w h => h.onlyUserSpace
    . exact Run.states_of_invariant hact hinit actions
  . apply Run.steps_of_invariant hact
    . exact fun w action h => h.stayInUserSpace_act action
    . exact hinit
  . intro envs
    have hrun : (MainState.run memory envs).Forall fun m => m.world.Confined :=
      MainState.forall_foldl_step (fun _ env h => usesInvariant_confined.forall_mainTurn env h)
        (m := .returned (.init memory)) hinit envs
    exact hrun.imp fun m h => h.onlyUserSpace
  . intro targetPid envs
    unfold main.pidUses
    rw [StayInUserSpace, List.forall_mem_append, List.forall_mem_append]
    refine ⟨⟨?_, usesInvariant_confined.mainLoop envs hinit⟩, ?_⟩
    . simp [PidUse.StaysInUserSpace]
    . simp [PidUse.StaysInUserSpace]

end DeadlockInterceptor
