import DeadlockInterceptor.Impl.Main

/-!
This module contains `resume_tid` and the requests with which the loop of `main` resumes the threads. The requests
change none of the globals, so the loop itself is the one of `Impl.Main`.
-/

namespace DeadlockInterceptor

inductive ResumeKind where
  | ptraceSyscall
  | ptraceCont
  deriving DecidableEq

structure ResumeRequest where
  kind : ResumeKind
  tid : Pid
  /-- The signal to be delivered, if it is not zero. -/
  data : Nat
  succeeded : Bool
  deriving DecidableEq

structure ResumeEnv extends TurnEnv where
  resumeAlive : Bool
  syscallSucceeds : Bool
  contSucceeds : Bool
  /-- The stop is the one that a `PTRACE_ATTACH` has asked for, if its signal is `SIGSTOP`. -/
  attaching : Bool

def resumeTid (env : ResumeEnv) (tid : Pid) : List ResumeRequest :=
  if !env.resumeAlive then
    []
  else
    let syscall : ResumeRequest := ⟨.ptraceSyscall, tid, 0, env.syscallSucceeds⟩
    if !env.syscallSucceeds then [syscall, ⟨.ptraceCont, tid, 0, env.contSucceeds⟩] else [syscall]

namespace MainState

def turnRequests (env : ResumeEnv) (m : MainState) : List ResumeRequest :=
  if env.tid ≤ 0 then
    []
  else if !env.tidAlive then
    []
  else if wifexited env.status || wifsignaled env.status then
    []
  else
    match m.turn env.toTurnEnv with
    | .returned m => if !m.isResolving then resumeTid env env.tid else []
    | .thrown _ _ => []
    | .undefined => []

def requests (env : ResumeEnv) : Outcome MainState → List ResumeRequest
  | .returned m => m.turnRequests env
  | .thrown _ _ => []
  | .undefined => []

def trace : Outcome MainState → List ResumeEnv → List (ResumeEnv × List ResumeRequest)
  | _, [] => []
  | m, env :: envs => (env, requests env m) :: trace (step m env.toTurnEnv) envs

end MainState

end DeadlockInterceptor
