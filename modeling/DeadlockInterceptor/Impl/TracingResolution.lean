import DeadlockInterceptor.Impl.Tracing

/-!
This module contains what the resolvers do to the threads of the target: `resolve_deadlock_strategy1` detaches them
before it forks and attaches to them again afterwards, `stop_the_world` and `resolve_group_deadlock` detach them for
good. The lists of threads are results of `list_threads`.
-/

namespace DeadlockInterceptor

/--
How the shadow process of `resolve_deadlock_strategy1` ends: `fork` fails, `waitpid` for it fails, or it has exited.
-/
inductive ShadowFate where
  | forkFailed
  | waitFailed
  | finished
  deriving DecidableEq

namespace Tracing

variable (env : TraceEnv)

def getTracer (tid : Pid) : StateM Tracing (Option Tracer) := do
  let t ← observe env tid
  return if t.alive then some t.tracer else none

/-- A traced thread that is stopped is in the state `t` instead of `T`. -/
def isThreadStopped (tid : Pid) : StateM Tracing Bool := do
  let t ← observe env tid
  return t.alive && t.stopped && t.tracer = .nobody

section strategy1

namespace reattachAndResumeTracing

def waitForStop (tid : Pid) : StateM Tracing Bool := do
  match ← call env tid (.waitpid true) with
  | .ok 0 =>
    match ← call env tid (.waitpid false) with
    | .ok 0 => return false
    | .ok (_ + 1) => return true
    | .error _ => return false
  | .ok (_ + 1) => return true
  | .error _ => return false

def retry (tid : Pid) : StateM Tracing (Option Bool) := do
  let _ ← call env tid .detach
  return none

def attachFailed (tid : Pid) (errno : Nat) : StateM Tracing (Option Bool) := do
  if errno = FutexUnlocker.eperm then
    let resumed ← if (← getTracer env tid) = some .us then succeeds env tid .syscall else pure false
    if resumed then
      return some true
    else if ← succeeds env tid .kill then
      if ← succeeds env tid .syscall then return some true else retry env tid
    else
      retry env tid
  else if errno = esrch then
    return some false
  else
    return none

def attempt (tid : Pid) : StateM Tracing (Option Bool) := do
  match ← call env tid .attach with
  | .ok _ =>
    if ← waitForStop env tid then
      if ← succeeds env tid (.setOptions false) then
        if ← succeeds env tid .syscall then return some true else retry env tid
      else
        retry env tid
    else
      retry env tid
  | .error errno => attachFailed env tid errno

def attempts (tid : Pid) : Nat → StateM Tracing (Option Bool)
  | 0 => return none
  | maxRetries + 1 => do
    match ← attempt env tid with
    | some result => return some result
    | none => attempts tid maxRetries

def lastResort (tid : Pid) : StateM Tracing Bool := do
  if ← succeeds env tid .cont then
    return true
  else if ← succeeds env tid .kill then
    return true
  else if ← succeeds env tid .detach then
    let _ ← call env tid .kill
    return true
  else
    return false

def reattach (tid : Pid) (maxRetries : Nat) : StateM Tracing Bool := do
  match ← attempts env tid maxRetries with
  | some result => return result
  | none => lastResort env tid

def actUpon (tid : Pid) (maxRetries : Nat) (stopped : Bool) : Option Tracer → StateM Tracing Bool
  | some .us => do
    if ← succeeds env tid .syscall then
      return true
    else if ← succeeds env tid .cont then
      return true
    else
      let _ ← call env tid .detach
      reattach env tid maxRetries
  | some .other => do
    if ← succeeds env tid .detach then
      reattach env tid maxRetries
    else
      let _ ← call env tid .kill
      reattach env tid maxRetries
  | some .nobody => do
    if stopped then
      let _ ← call env tid .kill
      reattach env tid maxRetries
    else
      reattach env tid maxRetries
  | none => reattach env tid maxRetries

end reattachAndResumeTracing

/--
Attach to a thread again, in one way or another. Everything it looks at may change until it acts upon it, and the
delays are not modelled.
-/
def reattachAndResumeTracing (tid : Pid) (maxRetries : Nat) : StateM Tracing Bool := do
  if !(← threadExists env tid) then
    return false
  else
    let tracer ← getTracer env tid
    let stopped ← isThreadStopped env tid
    reattachAndResumeTracing.actUpon env tid maxRetries stopped tracer

def countDetached (tid : Pid) : Reply → StateM Tracing Bool
  | .ok _ => return true
  | .error errno => do
    if errno = esrch ∨ errno = FutexUnlocker.eperm then
      return true
    else
      let _ ← call env tid .kill
      let _ ← call env tid .detach
      let _ ← call env tid .kill
      return false

def detachWithSigcont (tid : Pid) : StateM Tracing Bool := do
  if !(← threadExists env tid) then
    return true
  else
    countDetached env tid (← call env tid .detach)

def detachAll : List Pid → StateM Tracing Nat
  | [] => return 0
  | tid :: tids => do
    let detached ← detachWithSigcont env tid
    let detachedCount ← detachAll tids
    return if detached then detachedCount + 1 else detachedCount

def continueTraced (tid : Pid) : StateM Tracing Unit := do
  if !(← succeeds env tid .cont) then
    if !(← succeeds env tid .syscall) then
      if ← succeeds env tid .detach then
        if ← succeeds env tid .attach then
          let _ ← call env tid (.waitpid false)
          if ← succeeds env tid (.setOptions false) then
            let _ ← call env tid .syscall

def cleanupTraced (tid : Pid) : Tracer → StateM Tracing Unit
  | .nobody => return ()
  | .other => do
    if !(← succeeds env tid .detach) then
      let _ ← call env tid .kill
      let _ ← call env tid .detach
  | .us => continueTraced env tid

/--
The body of the loop of `cleanup_stuck_threads`. The status file is read at once, a file that is gone or the one of a
zombie ends it.
-/
def cleanupStuckThread (tid : Pid) : StateM Tracing Unit := do
  if ← threadExists env tid then
    let status ← observe env tid
    if status.alive then
      if status.stopped && status.tracer = .nobody then
        let _ ← call env tid .kill
      cleanupTraced env tid status.tracer

def cleanupStuckThreads (tids : List Pid) : StateM Tracing Unit := tids.forM (cleanupStuckThread env)

def resumeThread (tid : Pid) : StateM Tracing Unit := do
  if ← threadExists env tid then
    let _ ← call env tid .kill

def reattachOther (victimTid tid : Pid) : StateM Tracing Unit := do
  if ← threadExists env tid then
    if tid ≠ victimTid then
      let _ ← reattachAndResumeTracing env tid 5

def reattachVictim (victimTid : Pid) : StateM Tracing Unit := do
  if ← threadExists env victimTid then
    if !(← reattachAndResumeTracing env victimTid 5) then
      let _ ← call env victimTid .kill

/--
The parent's part of `resolve_deadlock_strategy1` once a victim is found. The shadow process itself only sends
`SIGCONT`, which is one of the things others may do.
-/
def resolveDeadlockStrategy1 (fate : ShadowFate) (victimTid : Pid) (tids : List Pid) : StateM Tracing Bool := do
  let _ ← detachAll env tids
  let _ ← call env victimTid .kill
  match fate with
  | .forkFailed => return false
  | .waitFailed => return false
  | .finished =>
    cleanupStuckThreads env tids
    tids.forM (resumeThread env)
    resumeThread env victimTid
    tids.forM (reattachOther env victimTid)
    reattachVictim env victimTid
    return true

def stopFallback (tid : Pid) (attempt : Nat) : Reply → StateM Tracing Bool
  | .ok _ => return true
  | .error errno => do
    if errno = esrch then
      return true
    else if errno = FutexUnlocker.eperm then
      return true
    else
      if attempt = 1 then
        let _ ← call env tid .cont
      return false

def stopAttempt (tid : Pid) (attempt : Nat) : StateM Tracing Bool := do
  stopFallback env tid attempt (← call env tid .detach)

def stopAttempts (tid : Pid) : List Nat → StateM Tracing Bool
  | [] => return false
  | attempt :: rest => do
    if ← stopAttempt env tid attempt then return true else stopAttempts tid rest

def stopThread (tid : Pid) : StateM Tracing Unit := do
  if !(← stopAttempts env tid [0, 1, 2]) then
    let _ ← call env tid .cont
    if !(← succeeds env tid .detach) then
      let _ ← call env tid .kill

/-- No thread is left out, so in the end `SIGCONT` is sent to the process. -/
def stopTheWorld (targetPid : Pid) (tids : List Pid) : StateM Tracing Bool := do
  if tids = [] then
    return true
  else
    tids.forM (stopThread env)
    let _ ← call env targetPid .kill
    return true

end strategy1

section group

def attachThenDetach (tid : Pid) : StateM Tracing Bool := do
  let detached ←
    if ← succeeds env tid .attach then
      let _ ← call env tid (.waitpid false)
      succeeds env tid .detach
    else
      pure false
  if !detached then
    let _ ← call env tid .kill
  return detached

def nuclearAttempt (tid : Pid) : StateM Tracing Bool := do
  if ← succeeds env tid .detach then return true else attachThenDetach env tid

def nuclearDetach (tid : Pid) : Nat → StateM Tracing Bool
  | 0 => return false
  | attempts + 1 => do
    if ← nuclearAttempt env tid then return true else nuclearDetach tid attempts

def nuclearDetachAll (allTids : List Pid) : StateM Tracing Unit :=
  allTids.forM fun tid => do let _ ← nuclearDetach env tid 3

/-- The threads that are found to be ours still. `opens` tells whose status file is there below `target_pid`. -/
def stillTraced (opens : Pid → Bool) : List Pid → StateM Tracing (List Pid)
  | [] => return []
  | tid :: allTids => do
    let t ← observe env tid
    let rest ← stillTraced opens allTids
    return if opens tid && t.alive && t.tracer = .us then tid :: rest else rest

def wakeUp (targetPid : Pid) (allTids : List Pid) : Nat → StateM Tracing Unit
  | 0 => return ()
  | rounds + 1 => do
    let _ ← call env targetPid .kill
    allTids.forM fun tid => do let _ ← call env tid .kill
    wakeUp targetPid allTids rounds

/--
The helper program cannot detach threads of another process. It sends `SIGCONT`, like the guardian and the calls for the
process group: none of these signals is modelled, others may send them as well.
-/
def resolveGroupDeadlock (targetPid : Pid) (opens : Pid → Bool) (allTids : List Pid) : StateM Tracing (List Pid) := do
  nuclearDetachAll env allTids
  let still ← stillTraced env opens allTids
  wakeUp env targetPid allTids 20
  return still

end group

end Tracing

inductive Routine where
  | attachAllThreads (tids : List Pid)
  | resumeTid (tid : Pid)
  | resolveDeadlockStrategy1 (fate : ShadowFate) (victimTid : Pid) (tids : List Pid)
  | stopTheWorld (targetPid : Pid) (tids : List Pid)
  | resolveGroupDeadlock (targetPid : Pid) (opens : Pid → Bool) (allTids : List Pid)
  | shutdownClean (tids : List Pid)

namespace Routine

def tids : Routine → List Pid
  | .attachAllThreads tids => tids
  | .resumeTid tid => [tid]
  | .resolveDeadlockStrategy1 _ victimTid tids => victimTid :: tids
  | .stopTheWorld targetPid tids => targetPid :: tids
  | .resolveGroupDeadlock targetPid _ allTids => targetPid :: allTids
  | .shutdownClean tids => tids

def requests (env : TraceEnv) : Routine → StateM Tracing Unit
  | .attachAllThreads tids => Tracing.attachAllThreads env tids
  | .resumeTid tid => Tracing.resumeTid env tid
  | .resolveDeadlockStrategy1 fate victimTid tids => do
    let _ ← Tracing.resolveDeadlockStrategy1 env fate victimTid tids
  | .stopTheWorld targetPid tids => do
    let _ ← Tracing.stopTheWorld env targetPid tids
  | .resolveGroupDeadlock targetPid opens allTids => do
    let _ ← Tracing.resolveGroupDeadlock env targetPid opens allTids
  | .shutdownClean tids => Tracing.shutdownClean env tids

end Routine

end DeadlockInterceptor
