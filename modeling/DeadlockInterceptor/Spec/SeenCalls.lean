import DeadlockInterceptor.Lemmas.TidRoundTrip
import DeadlockInterceptor.Spec.Observer
import DeadlockInterceptor.Spec.Trace

/-!
This module contains the futex calls that the loop of `main` has seen: one call for each stop that it handles, be it at
the entry or at the exit of the system call.
-/

namespace DeadlockInterceptor

namespace TurnEnv

/--
The call as the handler takes it. A `FUTEX_WAKE_BITSET` is taken for a wait, calls at implausible addresses are skipped.
-/
def seenCall (env : TurnEnv) : Option (Call Pid) :=
  match env.event.regs with
  | none => none
  | some regs =>
    if env.isHandled && !junkAddr regs.rdi then
      if regs.isFutexOp futexWake then
        some ⟨.wake, env.tid, regs.rdi⟩
      else if regs.isWait || regs.isFutexOp futexWakeBitset then
        some ⟨.wait, env.tid, regs.rdi⟩
      else
        none
    else
      none

/--
No file that could be read for the name of the thread shows a `[`, and the tid is an `int`.
-/
structure NamesPlainly (env : TurnEnv) : Prop where
  tid_le : env.tid ≤ 2147483647
  comm : '[' ∉ readComm (env.event.call.proc.comm env.tid)
  taskComm : ∀ pid, '[' ∉ readComm (env.event.call.proc.taskComm pid env.tid)

end TurnEnv

def seenCalls (envs : List TurnEnv) : Trace Pid := envs.filterMap TurnEnv.seenCall

end DeadlockInterceptor
