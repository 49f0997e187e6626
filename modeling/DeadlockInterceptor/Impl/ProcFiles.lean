import DeadlockInterceptor.Impl.Cleanup
import DeadlockInterceptor.Impl.TracingResolution

/-!
This module contains what the supervisor reads about threads below `/proc`: their tracer and their state in the status
file, and the threads of a process in the directory of its tasks. A file that cannot be opened is `none`.
-/

namespace DeadlockInterceptor

/--
`atoi`: leading white space, an optional sign, and the longest run of digits. The value is a `long`, which is cut to an
`int`. `sscanf` with `%d` into a variable that is 0 leaves the same number.
-/
def atoi (s : Str) : Int :=
  let s := s.dropWhile isSpace
  let (neg, s) :=
    match s with
    | '-' :: rest => (true, rest)
    | '+' :: rest => (false, rest)
    | s => (false, s)
  let n : Int := Nat.ofDigitChars 10 (s.takeWhile Char.isDigit) 0
  let n := if neg then -n else n
  (max (-9223372036854775808) (min n 9223372036854775807)).bmod 4294967296

def tracerLabel : Str := ['T', 'r', 'a', 'c', 'e', 'r', 'P', 'i', 'd', ':']

def getTracerPid (status : Option Str) : Int :=
  match status with
  | none => -1
  | some content =>
    match labelledLine tracerLabel content with
    | some line => atoi (line.drop 10)
    | none => -1

def isThreadStopped (status : Option Str) : Bool :=
  match status with
  | none => false
  | some content =>
    match labelledLine stateLabel content with
    | some line => strchr line 'T'
    | none => false

/--
Whether the status file names us as the tracer, for the resolver of group deadlocks and for the unlocker after `EPERM`.
The tracer is 0 without a line.
-/
def isTracedBy (getpid : Pid) (status : Option Str) : Bool :=
  match status with
  | none => false
  | some content =>
    match labelledLine tracerLabel content with
    | some line => atoi (line.drop 10) = getpid
    | none => false

structure CleanupStatus where
  stopped : Bool := false
  zombie : Bool := false
  running : Bool := false
  tracerPid : Int := 0
  deriving DecidableEq

namespace CleanupStatus

def readState (status : CleanupStatus) (line : Str) : CleanupStatus :=
  if hasLabel stateLabel line then
    if strchr line 'T' then
      { status with stopped := true }
    else if strchr line 'Z' then
      { status with zombie := true }
    else if strchr line 'R' || strchr line 'S' then
      { status with running := true }
    else
      status
  else
    status

def readTracer (status : CleanupStatus) (line : Str) : CleanupStatus :=
  if hasLabel tracerLabel line then { status with tracerPid := atoi (line.drop 10) } else status

def read (content : Str) : CleanupStatus :=
  (Text.buffers 254 content).foldl (fun status line => (status.readState line).readTracer line) {}

end CleanupStatus

def listThreads (entries : Option (List Str)) : List Pid :=
  match entries with
  | none => []
  | some entries => (entries.filter fun name => name.head? ≠ some '.').map atoi

def Tracer.ofPid (getpid tracerPid : Pid) : Tracer :=
  if tracerPid = getpid then .us else if tracerPid > 0 then .other else .nobody

/-
The functions that decide by what they read. Others may act before a file is read.
-/
namespace Tracing

variable (env : TraceEnv) (getpid : Pid) (files : Tracing → Pid → Option Str)

def readStatus (tid : Pid) : StateM Tracing (Option Str) := do
  pause env
  return files (← get) tid

def getTracerOfFiles (tid : Pid) : StateM Tracing (Option Tracer) := do
  let tracerPid := getTracerPid (← readStatus env files tid)
  return if tracerPid = -1 then none else some (Tracer.ofPid getpid tracerPid)

def isThreadStoppedOfFiles (tid : Pid) : StateM Tracing Bool := do
  return DeadlockInterceptor.isThreadStopped (← readStatus env files tid)

def cleanupOfStatus (tid : Pid) (status : CleanupStatus) : StateM Tracing Unit := do
  if !status.zombie then
    if status.stopped then
      let _ ← call env tid .kill
    cleanupTraced env tid (Tracer.ofPid getpid status.tracerPid)

def cleanupStuckThreadOfFiles (tid : Pid) : StateM Tracing Unit := do
  if ← threadExists env tid then
    match ← readStatus env files tid with
    | none => return ()
    | some content => cleanupOfStatus env getpid tid (.read content)

def stillTracedOfFiles (opens : Pid → Bool) : List Pid → StateM Tracing (List Pid)
  | [] => return []
  | tid :: allTids => do
    let file ← readStatus env files tid
    let rest ← stillTracedOfFiles opens allTids
    return if opens tid && isTracedBy getpid file then tid :: rest else rest

end Tracing

end DeadlockInterceptor
