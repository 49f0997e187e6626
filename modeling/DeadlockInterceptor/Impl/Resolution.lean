import DeadlockInterceptor.Impl.GroupCycles
import DeadlockInterceptor.Impl.Strategy1
import DeadlockInterceptor.Impl.Monitoring

/-!
This module contains the detection pass that follows every event: first the groups, then the threads.
-/

namespace DeadlockInterceptor

/--
How a function ends: it returns, an exception leaves it, or its behavior is undefined.
-/
inductive Outcome (σ : Type) where
  | returned (s : σ)
  | thrown (e : Exn) (s : σ)
  | undefined

structure GroupEnv where
  openMem : Bool
  pwrite : Nat → Reply

structure ResolveEnv where
  strategy1 : Strategy1Env
  emergency : World.EmergencyEnv

structure PassEnv where
  orders : HashOrders
  group : GroupEnv
  resolve : ThreadName → ResolveEnv

def GroupDeadlockInfo.allLocks (ho : HashOrders) (groupDeadlock : GroupDeadlockInfo) : List Addr :=
  ho.addrs.order
    (USet.insertAll ∅ (groupDeadlock.groupResolutions.flatMap fun res => res.heldLocks.toList)).toList

namespace World

/--
Write zero to the locks that are held by the groups. The monitoring stays switched off. What is done to the threads
is in `Impl.TracingResolution`.
-/
def resolveGroupDeadlock (ho : HashOrders) (env : GroupEnv) (groupDeadlock : GroupDeadlockInfo)
    (w : World) : Bool × World :=
  let w := w.setMonitoring false
  let allLocks := groupDeadlock.allLocks ho
  let memory :=
    if env.openMem then
      allLocks.zipIdx.foldl (fun memory (lockAddr, k) =>
        match (SysCall.pwrite lockAddr).written (env.pwrite k) with
        | some (addr, n) => memory.zero addr n
        | none => memory) w.memory
    else
      w.memory
  (true, { w with memory := memory })

def resolveThreadDeadlock (env : ResolveEnv) (cycle : List ThreadName) (w : World) :
    Except Exn Unit × World :=
  let w := { w with deadlockCounter := w.deadlockCounter + 1 }
  let deadlock : DeadlockInfo := {
    cycle := cycle
    involvedLocks := findLocksInDeadlock w.toTracker cycle
    deadlockId := w.deadlockCounter }
  match w.resolveDeadlockStrategy1 env.strategy1 deadlock with
  | (.error e, w) => (.error e, w)
  | (.ok true, w) => (.ok (), record { deadlock with resolved := true } w)
  | (.ok false, w) =>
    match w.emergencyDeadlockBreak env.emergency deadlock with
    | (.error e, w) => (.error e, w)
    | (.ok resolved, w) => (.ok (), record { deadlock with resolved := resolved } w)
where
  record (deadlock : DeadlockInfo) (w : World) : World :=
    { w with detectedDeadlocks := w.detectedDeadlocks ++ [deadlock] }

end World

structure ScanState where
  world : World
  visited : Finset ThreadName
  stack : Finset ThreadName

namespace ScanState

/--
The body of the loop over `waits_for` for the entry of `thread_name`. An entry that has been erased before
the loop came by is not visited. To erase the entry the loop stands on leaves it with an invalid iterator.
-/
def turn (env : ResolveEnv) (threadName : ThreadName) (st : ScanState) : Outcome ScanState :=
  if threadName ∉ st.world.waitsFor then
    .returned st
  else if threadName ∉ st.visited then
    match dfsDeadlock st.world.waitsFor threadName ⟨st.visited, st.stack, []⟩ with
    | (false, d) => .returned { st with visited := d.visited, stack := d.stack }
    | (true, d) =>
      let st := { st with visited := d.visited, stack := d.stack }
      let cycle := d.cycle.reverse
      if 2 ≤ cycle.length ∧ ∀ existing ∈ st.world.detectedDeadlocks, existing.cycle ≠ cycle then
        match st.world.resolveThreadDeadlock env cycle with
        | (.error e, world) => .thrown e { st with world := world }
        | (.ok (), world) =>
          if threadName ∉ world.waitsFor then
            .undefined
          else
            .returned { st with world := world }
      else
        .returned st
  else
    .returned st

def loop (env : ThreadName → ResolveEnv) : List ThreadName → ScanState → Outcome ScanState
  | [], st => .returned st
  | threadName :: rest, st =>
    match st.turn (env threadName) threadName with
    | .returned st => loop env rest st
    | .thrown e st => .thrown e st
    | .undefined => .undefined

end ScanState

namespace World

def scanThreads (env : ThreadName → ResolveEnv) (w : World) : Outcome World :=
  match ScanState.loop env w.waitsFor.keys ⟨w, ∅, ∅⟩ with
  | .returned st => .returned st.world
  | .thrown e st => .thrown e st.world
  | .undefined => .undefined

def detectAndResolveDeadlocks (env : PassEnv) (w : World) : Outcome World :=
  if !w.monitoringActive then
    .returned w
  else
    match detectGroupDeadlock env.orders w.toTracker with
    | .error e => .thrown e w
    | .ok groupDeadlock =>
      if 2 ≤ groupDeadlock.groupCycle.length then
        let w := { w with deadlockCounter := w.deadlockCounter + 1 }
        match w.resolveGroupDeadlock env.orders env.group groupDeadlock with
        | (true, w) => .returned w
        | (false, w) => w.scanThreads env.resolve
      else
        w.scanThreads env.resolve

end World

/--
The outcomes of the calls for one stop of a thread. The maps may be rehashed when they are updated, so the
order in which the pass visits them is an outcome too.
-/
structure EventEnv where
  tidAlive : Bool
  regs : Option Regs
  call : Env
  rehash : Tracker → Tracker
  rehash_same : ∀ s, Tracker.Same s (rehash s)
  pass : PassEnv

def World.handleEvent (env : EventEnv) (tid : Pid) (w : World) : Outcome World :=
  if !env.tidAlive then
    .returned w
  else
    let globals := handleSyscall env.call tid env.regs w.toGlobalState
    let w := { w with toGlobalState := { globals with toTracker := env.rehash globals.toTracker } }
    match w.detectAndResolveDeadlocks env.pass with
    | .thrown _ w => .returned w
    | outcome => outcome

end DeadlockInterceptor
