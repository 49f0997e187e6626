import DeadlockInterceptor.Impl.Main

/-!
This module contains which process the calls of the monitor are about: for every function that reads the
global `target_pid`, or calls one that does, the uses it makes of the value in their order.
-/

namespace DeadlockInterceptor

inductive PidUse where
  | isPositive
  | openComm (tid : Pid)
  | threadInfo
  | listThreads
  | unlocker
  | unlockerCall (call : SysCall)
  | openStatus (tid : Pid)
  /-- Write `kill` of the process or its group into the helper program. -/
  | helperKill
  | helperKillGroup
  | openMem
  | pwrite (addr : Addr)
  | kill
  | killGroup
  | access
  deriving DecidableEq

def usesOf (pid : Pid) (uses : List PidUse) : List (PidUse × Pid) := uses.map (·, pid)

structure GroupPidEnv where
  allTids : List Pid
  stillTraced : Pid → Bool
  openHelper : Bool
  /-- How often the guardian has asked for the process so far, `none` if `fork` fails. -/
  guardian : Option Nat

namespace GlobalState

def threadIdentifier.pidUses (proc : ProcFs) (tid : Pid) (s : GlobalState) : List (PidUse × Pid) :=
  match s.threadInfoCache.lookup tid with
  | some _ => []
  | none =>
    let ofComm : List PidUse :=
      if readComm (proc.comm tid) = [] then
        if s.targetPid > 0 then [.isPositive, .openComm tid] else [.isPositive]
      else
        []
    usesOf s.targetPid (ofComm ++ [.threadInfo])

def onLock.pidUses (env : Env) (tid : Pid) (addr : Addr) (s : GlobalState) : List (PidUse × Pid) :=
  if junkAddr addr then [] else threadIdentifier.pidUses env.proc tid s

def onWait.pidUses (env : Env) (tid : Pid) (addr : Addr) (s : GlobalState) : List (PidUse × Pid) :=
  if junkAddr addr then [] else threadIdentifier.pidUses env.proc tid s

def onWake.pidUses (env : Env) (tid : Pid) (s : GlobalState) : List (PidUse × Pid) :=
  threadIdentifier.pidUses env.proc tid s

end GlobalState

def handleSyscall.pidUses (env : Env) (tid : Pid) (regs : Option Regs) (s : GlobalState) :
    List (PidUse × Pid) :=
  match regs with
  | none => []
  | some regs =>
    if regs.origRax = sysFutex then
      let uaddr := regs.rdi
      let op := (regs.rsi &&& futexCmdMask).toUInt32
      if op = futexWait then
        GlobalState.onWait.pidUses env tid uaddr s
      else if op = futexWake then
        GlobalState.onWake.pidUses env tid s ++
          GlobalState.onLock.pidUses env tid uaddr (s.onWake env tid uaddr)
      else if op = futexWaitBitset ∨ op = futexWakeBitset then
        GlobalState.onWait.pidUses env tid uaddr s
      else
        []
    else
      []

def ShadowRun.calls (run : ShadowRun) (involvedLocks : List Addr) (memory : Memory) : List SysCall :=
  let calls := (run.unlocker involvedLocks memory).log.map Prod.fst
  match run.lifetime with
  | none => calls
  | some n => calls.take n

namespace World

def resolveDeadlockStrategy1.pidUses (env : Strategy1Env) (deadlock : DeadlockInfo) (w : World) :
    List (PidUse × Pid) :=
  match findVictim env.threadExists deadlock.cycle with
  | .error _ => []
  | .ok none => []
  | .ok (some (_, victimTid)) =>
    if victimTid = 0 then
      []
    else
      let ofShadow : List PidUse :=
        match env.shadow with
        | none => []
        | some run => .unlocker :: (run.calls deadlock.involvedLocks w.memory).map .unlockerCall
      usesOf w.targetPid (.listThreads :: ofShadow)

def emergencyDeadlockBreak.pidUses (env : EmergencyEnv) (deadlock : DeadlockInfo) (w : World) :
    List (PidUse × Pid) :=
  match findVictim env.threadExists deadlock.cycle with
  | .error _ => []
  | .ok none => []
  | .ok (some (_, tid)) => GlobalState.threadIdentifier.pidUses env.proc tid w.toGlobalState

def resolveThreadDeadlock.pidUses (env : ResolveEnv) (cycle : List ThreadName) (w : World) :
    List (PidUse × Pid) :=
  let w := { w with deadlockCounter := w.deadlockCounter + 1 }
  let deadlock : DeadlockInfo := {
    cycle := cycle
    involvedLocks := findLocksInDeadlock w.toTracker cycle
    deadlockId := w.deadlockCounter }
  resolveDeadlockStrategy1.pidUses env.strategy1 deadlock w ++
    match w.resolveDeadlockStrategy1 env.strategy1 deadlock with
    | (.error _, _) => []
    | (.ok true, _) => []
    | (.ok false, w) => emergencyDeadlockBreak.pidUses env.emergency deadlock w

def resolveGroupDeadlock.pidUses (ho : HashOrders) (env : GroupEnv) (pidEnv : GroupPidEnv)
    (groupDeadlock : GroupDeadlockInfo) (w : World) : List (PidUse × Pid) :=
  let helper : List PidUse :=
    if pidEnv.allTids.any pidEnv.stillTraced && pidEnv.openHelper then
      [.helperKill, .helperKillGroup]
    else
      []
  let writes : List PidUse := if env.openMem then (groupDeadlock.allLocks ho).map .pwrite else []
  let guardian : List PidUse :=
    match pidEnv.guardian with
    | none => []
    | some rounds => (List.replicate rounds [.access, .kill, .killGroup]).flatten
  let wakeup : List PidUse := (List.replicate 20 [.kill, .killGroup]).flatten
  usesOf w.targetPid
    ([.listThreads] ++ pidEnv.allTids.map .openStatus ++ helper ++ [.openMem] ++ writes ++ wakeup ++
      guardian ++ [.access])

end World

namespace ScanState

def turn.pidUses (env : ResolveEnv) (threadName : ThreadName) (st : ScanState) : List (PidUse × Pid) :=
  if threadName ∉ st.world.waitsFor then
    []
  else if threadName ∉ st.visited then
    match dfsDeadlock st.world.waitsFor threadName ⟨st.visited, st.stack, []⟩ with
    | (false, _) => []
    | (true, d) =>
      let cycle := d.cycle.reverse
      if 2 ≤ cycle.length ∧ ∀ existing ∈ st.world.detectedDeadlocks, existing.cycle ≠ cycle then
        World.resolveThreadDeadlock.pidUses env cycle st.world
      else
        []
  else
    []

def loop.pidUses (env : ThreadName → ResolveEnv) : List ThreadName → ScanState → List (PidUse × Pid)
  | [], _ => []
  | threadName :: rest, st =>
    turn.pidUses (env threadName) threadName st ++
      match st.turn (env threadName) threadName with
      | .returned st => loop.pidUses env rest st
      | .thrown _ _ => []
      | .undefined => []

end ScanState

namespace World

def scanThreads.pidUses (env : ThreadName → ResolveEnv) (w : World) : List (PidUse × Pid) :=
  ScanState.loop.pidUses env w.waitsFor.keys ⟨w, ∅, ∅⟩

def detectAndResolveDeadlocks.pidUses (env : PassEnv) (pidEnv : GroupPidEnv) (w : World) :
    List (PidUse × Pid) :=
  if !w.monitoringActive then
    []
  else
    match detectGroupDeadlock env.orders w.toTracker with
    | .error _ => []
    | .ok groupDeadlock =>
      if 2 ≤ groupDeadlock.groupCycle.length then
        let w := { w with deadlockCounter := w.deadlockCounter + 1 }
        resolveGroupDeadlock.pidUses env.orders env.group pidEnv groupDeadlock w ++
          match w.resolveGroupDeadlock env.orders env.group groupDeadlock with
          | (true, _) => []
          | (false, w) => scanThreads.pidUses env.resolve w
      else
        scanThreads.pidUses env.resolve w

def handleEvent.pidUses (env : EventEnv) (pidEnv : GroupPidEnv) (tid : Pid) (w : World) :
    List (PidUse × Pid) :=
  if !env.tidAlive then
    []
  else
    let globals := handleSyscall env.call tid env.regs w.toGlobalState
    handleSyscall.pidUses env.call tid env.regs w.toGlobalState ++
      detectAndResolveDeadlocks.pidUses env.pass pidEnv
        { w with toGlobalState := { globals with toTracker := env.rehash globals.toTracker } }

end World

namespace MainState

def turn.pidUses (env : TurnEnv) (pidEnv : GroupPidEnv) (m : MainState) : List (PidUse × Pid) :=
  if env.tid ≤ 0 then
    []
  else if !env.tidAlive then
    []
  else if wifexited env.status || wifsignaled env.status then
    []
  else if env.status.sshiftRight 8 = sigtrap ||| 0x80 then
    if !m.isResolving then World.handleEvent.pidUses env.event pidEnv env.tid m.world else []
  else
    []

def loop.pidUses : List (TurnEnv × GroupPidEnv) → Outcome MainState → List (PidUse × Pid)
  | env :: envs, .returned m => turn.pidUses env.1 env.2 m ++ loop.pidUses envs (m.turn env.1)
  | _, _ => []

end MainState

/--
The uses `main` and all it calls make of a pid. The argument is in a local variable `target_pid`, which
`attach_all_threads` and `shutdown_clean` get.
-/
def main.pidUses (targetPid : Pid) (memory : Memory) (envs : List (TurnEnv × GroupPidEnv)) :
    List (PidUse × Pid) :=
  [(.listThreads, targetPid)] ++ MainState.loop.pidUses envs (.returned (.init memory)) ++
    [(.listThreads, targetPid)]

end DeadlockInterceptor
