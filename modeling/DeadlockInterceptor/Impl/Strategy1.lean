import DeadlockInterceptor.Impl.ThreadCycles
import DeadlockInterceptor.Impl.FutexUnlocker

/-!
This module contains the two resolvers of a deadlock of threads. The signals and `ptrace` requests to the
threads of the target change none of the globals and are in `Impl.TracingResolution`.
-/

namespace DeadlockInterceptor

/--
The globals of the monitor and the memory of the target. The counters of both are natural numbers that do not wrap.
-/
structure World extends GlobalState where
  memory : Memory

inductive WaitStatus where
  | exited (code : Nat)
  | signaled (signal : Nat)
  deriving DecidableEq

structure ShadowRun where
  kernel : Kernel
  /-- The number of system calls after which the process is killed, if it is. -/
  lifetime : Option Nat
  status : Option WaitStatus

namespace ShadowRun

/--
A process that is killed changes the memory no more, just like one whose calls all fail from then on.
-/
def mortalKernel (run : ShadowRun) : Kernel where
  reply k :=
    match run.lifetime with
    | some n => if k < n then run.kernel.reply k else .error 3
    | none => run.kernel.reply k
  getpid := run.kernel.getpid

def unlocker (run : ShadowRun) (involvedLocks : List Addr) (memory : Memory) : FutexUnlocker :=
  (FutexUnlocker.unlockMultiple run.mortalKernel 7 involvedLocks { memory := memory }).2

end ShadowRun

/--
The first live thread of a cycle. The tids are read from the identifiers, which may throw.
-/
def findVictim (threadExists : Pid → Bool) :
    List ThreadName → Except Exn (Option (ThreadName × Pid))
  | [] => .ok none
  | threadName :: rest =>
    match extractTidFromIdentifier threadName with
    | .error e => .error e
    | .ok tid => if threadExists tid then .ok (some (threadName, tid)) else findVictim threadExists rest

def Tracker.cleanVictim (victimName : ThreadName) (involvedLocks : List Addr) (s : Tracker) : Tracker :=
  { s with
    waitsFor := s.waitsFor.erase victimName
    threadLocks := s.threadLocks.erase victimName
    lockOwners := involvedLocks.foldl (fun owners lockAddr =>
      if owners.lookup lockAddr = some victimName then owners.erase lockAddr else owners) s.lockOwners
    futexWaiters := s.futexWaiters.mapVal (List.filter (· ≠ victimName)) }

structure Strategy1Env where
  threadExists : Pid → Bool
  shadow : Option ShadowRun

namespace World

def setMonitoring (w : World) (active : Bool) : World := { w with monitoringActive := active }

def resolveDeadlockStrategy1 (env : Strategy1Env) (deadlock : DeadlockInfo) (w : World) :
    Except Exn Bool × World :=
  let w := w.setMonitoring false
  match findVictim env.threadExists deadlock.cycle with
  | .error e => (.error e, w)
  | .ok none => (.ok false, w.setMonitoring true)
  | .ok (some (victimName, victimTid)) =>
    if victimTid = 0 then
      (.ok false, w.setMonitoring true)
    else
      match env.shadow with
      | none => (.ok false, w.setMonitoring true)
      | some run =>
        let w := { w with memory := (run.unlocker deadlock.involvedLocks w.memory).memory }
        match run.status with
        | none => (.ok false, w.setMonitoring true)
        | some _ =>
          let w := { w with
            toTracker := w.toTracker.cleanVictim victimName deadlock.involvedLocks }
          (.ok true, w.setMonitoring true)

structure EmergencyEnv where
  threadExists : Pid → Bool
  proc : ProcFs

/--
Kill the first live thread. What is forgotten is the thread that has its tid now.
-/
def emergencyDeadlockBreak (env : EmergencyEnv) (deadlock : DeadlockInfo) (w : World) :
    Except Exn Bool × World :=
  match findVictim env.threadExists deadlock.cycle with
  | .error e => (.error e, w)
  | .ok none => (.ok false, w)
  | .ok (some (_, tid)) =>
    let (victimName, globals) := w.toGlobalState.threadIdentifier env.proc tid
    (.ok true, { w with
      toGlobalState := { globals with
        waitsFor := globals.waitsFor.erase victimName
        threadLocks := globals.threadLocks.erase victimName
        lockOwners := globals.lockOwners.eraseVal victimName } })

/--
The clean-up of the parent, which no strategy calls. A lock counts as a lock of the victim if the digits of
its tid occur anywhere in the identifier of the owner.
-/
def cleanupParentProcess (proc : ProcFs) (victimTid : Pid) (deadlockLocks : List Addr) (w : World) :
    Bool × World :=
  let lockOwners := deadlockLocks.foldl (fun owners lockAddr =>
    if ∃ owner ∈ owners.lookup lockAddr, toStr victimTid <:+: owner then owners.erase lockAddr else owners)
    w.lockOwners
  let (victimName, globals) := w.toGlobalState.threadIdentifier proc victimTid
  (true, { w with
    toGlobalState := { globals with
      lockOwners := lockOwners
      waitsFor := globals.waitsFor.erase victimName
      futexWaiters := (globals.futexWaiters.mapVal (List.filter (· ≠ victimName))).eraseVal [] } })

end World

end DeadlockInterceptor
