import DeadlockInterceptor.Impl.FutexUnlocker

/-!
This module contains the `ptrace` requests of `main`: all threads of the target are attached to, resumed after each of
their stops and detached in the end. Before each call the threads act by themselves and other processes act on them.
-/

namespace DeadlockInterceptor

inductive Tracer where
  | nobody
  | us
  | other
  deriving DecidableEq

structure Tracee where
  alive : Bool
  tracer : Tracer
  stopped : Bool
  /-- The next system call stops the thread. -/
  syscallTracing : Bool
  exitKill : Bool
  deriving DecidableEq

/--
The calls for a thread. `PTRACE_O_TRACESYSGOOD` is set whenever options are set, the only signal to be sent is
`SIGCONT`.
-/
inductive TraceCall where
  | attach
  | setOptions (exitKill : Bool)
  | syscall
  | cont
  | detach
  | interrupt
  | waitpid (nohang : Bool)
  | kill
  deriving DecidableEq

namespace Tracee

/--
What Linux lets us do. A thread has one tracer, which resumes or detaches it only while it is stopped, and
`PTRACE_INTERRUPT` is only for threads that were attached to with `PTRACE_SEIZE`.
-/
def permits (t : Tracee) : TraceCall → Bool
  | .attach => t.alive && t.tracer = .nobody
  | .setOptions _ | .syscall | .cont | .detach => t.alive && t.tracer = .us && t.stopped
  | .interrupt => false
  | .waitpid _ => t.alive && t.tracer = .us
  | .kill => t.alive

/--
What `SIGCONT` does to a thread of the process. One without a tracer continues. One that is traced stops for the signal
to be delivered if it `takes` it, a thread that blocks the signal or leaves it to another one does not.
-/
def signaled (t : Tracee) (takes : Bool) : Tracee :=
  if !t.alive then
    t
  else if t.tracer = .nobody then
    { t with stopped := false }
  else
    { t with stopped := t.stopped || takes }

/--
The effect of a call that has succeeded with the value `n`. Attaching stops the thread, `waitpid` tells so or returns 0.
-/
def effect (t : Tracee) (n : Nat) (takes : Bool) : TraceCall → Tracee
  | .attach => { t with tracer := .us, stopped := true, syscallTracing := false, exitKill := false }
  | .setOptions exitKill => { t with exitKill := exitKill }
  | .syscall => { t with stopped := false, syscallTracing := true }
  | .cont => { t with stopped := false, syscallTracing := false }
  | .detach => { t with tracer := .nobody, stopped := false, syscallTracing := false, exitKill := false }
  | .interrupt => t
  | .waitpid _ => if n = 0 then t else { t with stopped := true }
  | .kill => t.signaled takes

/--
What may happen to a thread between our calls. A thread of ours may stop and it may die, its tid is not used again. All
other threads may also be created, resumed and attached to.
-/
structure Moves (t t' : Tracee) : Prop where
  tracer : t'.tracer = .us ↔ t.tracer = .us
  syscallTracing : t.tracer = .us → t'.syscallTracing = t.syscallTracing
  exitKill : t.tracer = .us → t'.exitKill = t.exitKill
  stopped : t.tracer = .us → t.stopped = true → t'.stopped = true
  alive : t.tracer = .us → t'.alive = true → t.alive = true

end Tracee

def Reply.succeeded : Reply → Bool
  | .ok _ => true
  | .error _ => false

/--
The threads of the system, and how often they have acted and how many calls have been made so far.
-/
structure Tracing where
  thread : Pid → Tracee
  time : Nat := 0
  calls : Nat := 0

/--
What the threads do by themselves, and the outcome of the `k`-th call if Linux permits it.
-/
structure TraceEnv where
  moves : Nat → Pid → Tracee → Tracee
  moves_moves : ∀ time tid t, Tracee.Moves t (moves time tid t)
  reply : Nat → Pid → TraceCall → Reply
  process : Pid → Pid
  /-- Whether a thread takes the signal that the `k`-th call sends to another one or itself. -/
  takes : Nat → Pid → Pid → Bool

/--
A call is about one thread, but a signal is sent to its whole process.
-/
def TraceEnv.Concerns (env : TraceEnv) (tid : Pid) (c : TraceCall) (tid' : Pid) : Prop :=
  tid' = tid ∨ (c = .kill ∧ env.process tid' = env.process tid)

instance (env : TraceEnv) (tid : Pid) (c : TraceCall) (tid' : Pid) : Decidable (env.Concerns tid c tid') :=
  inferInstanceAs (Decidable (_ ∨ _))

namespace Tracing

def esrch : Nat := 3

def eio : Nat := 5

def refusal (t : Tracee) : TraceCall → Nat
  | .attach => if t.alive then FutexUnlocker.eperm else esrch
  | .interrupt => if t.alive && t.tracer = .us then eio else esrch
  | _ => esrch

variable (env : TraceEnv)

def pause : StateM Tracing Unit :=
  modify fun s => { s with thread := fun tid => env.moves s.time tid (s.thread tid), time := s.time + 1 }

def observe (tid : Pid) : StateM Tracing Tracee := do
  pause env
  return (← get).thread tid

def perform (tid : Pid) (c : TraceCall) : StateM Tracing Reply := fun s =>
  match env.reply s.calls tid c with
  | .ok n =>
    if (s.thread tid).permits c then
      (.ok n, { s with
        thread := fun tid' =>
          if env.Concerns tid c tid' then (s.thread tid').effect n (env.takes s.calls tid tid') c else s.thread tid'
        calls := s.calls + 1 })
    else
      (.error (refusal (s.thread tid) c), { s with calls := s.calls + 1 })
  | .error errno => (.error errno, { s with calls := s.calls + 1 })

def call (tid : Pid) (c : TraceCall) : StateM Tracing Reply := do
  pause env
  perform env tid c

def succeeds (tid : Pid) (c : TraceCall) : StateM Tracing Bool := do
  return (← call env tid c).succeeded

def threadExists (tid : Pid) : StateM Tracing Bool := do
  return (← observe env tid).alive

section main

def resumeTid (tid : Pid) : StateM Tracing Unit := do
  if ← threadExists env tid then
    if !(← succeeds env tid .syscall) then
      let _ ← call env tid .cont

def attachThread (tid : Pid) : StateM Tracing Unit := do
  if ← threadExists env tid then
    if ← succeeds env tid .attach then
      let _ ← call env tid (.waitpid false)
      let _ ← call env tid (.setOptions true)
      let _ ← call env tid .syscall

def attachAllThreads (tids : List Pid) : StateM Tracing Unit := tids.forM (attachThread env)

def interruptThread (tid : Pid) : StateM Tracing Unit := do
  if ← threadExists env tid then
    let _ ← call env tid .interrupt

def detachThread (tid : Pid) : StateM Tracing Unit := do
  if ← threadExists env tid then
    let _ ← call env tid .detach

def shutdownClean (tids : List Pid) : StateM Tracing Unit := do
  tids.forM (interruptThread env)
  tids.forM (detachThread env)

end main

/--
When the monitor exits, the kernel kills the threads that still have it as their tracer and this option.
-/
def KilledAtExit (tid : Pid) (s : Tracing) : Prop :=
  (s.thread tid).alive = true ∧ (s.thread tid).tracer = .us ∧ (s.thread tid).exitKill = true

end Tracing

end DeadlockInterceptor
