import DeadlockInterceptor.Spec.SyscallStops

/-!
This module contains the observer: the loop of `main` without the detection pass. It follows the futex calls of
the target and touches neither its memory nor its threads.
-/

namespace DeadlockInterceptor

namespace TurnEnv

/-- The turn is a stop at a system call, and the handler gets past its own question whether the thread is alive. -/
def isHandled (env : TurnEnv) : Bool := env.isSyscallStop && env.tidAlive && env.event.tidAlive

def Wakes (env : TurnEnv) (addr : Addr) : Prop :=
  env.isHandled = true ∧ ∃ regs, env.event.regs = some regs ∧ regs.isFutexOp futexWake = true ∧
    regs.rdi = addr ∧ junkAddr addr = false

instance (env : TurnEnv) (addr : Addr) : Decidable (env.Wakes addr) :=
  match h : env.event.regs with
  | none => isFalse fun ⟨_, regs, hregs, _⟩ => by rw [h] at hregs; cases hregs
  | some regs =>
    decidable_of_iff (env.isHandled = true ∧ regs.isFutexOp futexWake = true ∧ regs.rdi = addr ∧
      junkAddr addr = false) <| by simp [Wakes, h]

end TurnEnv

namespace GlobalState

def observe (s : GlobalState) (env : TurnEnv) : GlobalState :=
  if env.isHandled then
    let s := handleSyscall env.event.call env.tid env.event.regs s
    { s with toTracker := env.event.rehash s.toTracker }
  else
    s

def observed (envs : List TurnEnv) : GlobalState := envs.foldl observe init

end GlobalState

end DeadlockInterceptor
