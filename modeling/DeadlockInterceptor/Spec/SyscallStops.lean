import DeadlockInterceptor.Impl.Main
import Mathlib.Logic.Function.Basic

/-!
This module contains the stops of threads that are resumed with `PTRACE_SYSCALL`, next to the loop of `main`
that sees them: every system call of a thread makes two of them with the same registers, at its entry and at
its exit, and the stops of different threads come in any order.
-/

namespace DeadlockInterceptor

namespace Regs

def isFutexOp (regs : Regs) (op : UInt32) : Bool :=
  regs.origRax = sysFutex && (regs.rsi &&& futexCmdMask).toUInt32 = op

def isWait (regs : Regs) : Bool := regs.isFutexOp futexWait || regs.isFutexOp futexWaitBitset

end Regs

def TurnEnv.isSyscallStop (env : TurnEnv) : Bool :=
  0 < env.tid && !(wifexited env.status || wifsignaled env.status) &&
    env.status.sshiftRight 8 = sigtrap ||| 0x80

structure Stop extends TurnEnv where
  threadRegs : Regs

/--
The loop, and of each thread the call it is in and whether its last futex wait has returned since.
-/
structure Traced where
  main : Outcome MainState
  inCall : Pid → Option Regs
  returned : Pid → Bool

namespace Traced

def init (memory : Memory) : Traced := ⟨.returned (.init memory), fun _ => none, fun _ => false⟩

/--
After an exit stop of a wait it has returned, after an entry stop of a wait it has not.
-/
def returnedAfter (m : Traced) (stop : Stop) : Bool :=
  match m.inCall stop.tid with
  | none => if stop.threadRegs.isWait then false else m.returned stop.tid
  | some regs => if regs.isWait then true else m.returned stop.tid

def step (m : Traced) (stop : Stop) : Traced :=
  let main := MainState.step m.main stop.toTurnEnv
  if stop.isSyscallStop then
    { main := main
      inCall := Function.update m.inCall stop.tid
        (if m.inCall stop.tid = none then some stop.threadRegs else none)
      returned := Function.update m.returned stop.tid (m.returnedAfter stop) }
  else if wifexited stop.status || wifsignaled stop.status then
    { m with main := main, inCall := Function.update m.inCall stop.tid none }
  else
    { m with main := main }

/--
The exit stop of a call has the registers of its entry stop, and what the handler reads are these registers.
-/
structure Allows (m : Traced) (stop : Stop) : Prop where
  exit_regs : stop.isSyscallStop = true → ∀ regs, m.inCall stop.tid = some regs → stop.threadRegs = regs
  read_regs : stop.isSyscallStop = true →
    stop.event.regs = none ∨ stop.event.regs = some stop.threadRegs

end Traced

end DeadlockInterceptor
