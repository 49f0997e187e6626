import DeadlockInterceptor.Impl.FutexUnlocker
import Mathlib.Logic.Function.Basic

/-!
This module contains the queues of private futexes. The kernel finds such a queue by an address and the process
which passes it, so a wake reaches no queue of another process.
-/

namespace DeadlockInterceptor

/-- The sleeping threads by the process and the address of the futex, which wake in this order. -/
abbrev PrivateQueues := Nat × Addr → List Pid

namespace PrivateQueues

/-- The count that `wake_futex` passes, `INT_MAX`. -/
def intMax : Nat := 2 ^ 31 - 1

def step (caller : Nat) (queues : PrivateQueues) : SysCall × Reply → PrivateQueues
  | (.futexWake addr, .ok _) =>
    Function.update queues (caller, addr) ((queues (caller, addr)).drop intMax)
  | _ => queues

def run (caller : Nat) (queues : PrivateQueues) (log : List (SysCall × Reply)) : PrivateQueues :=
  log.foldl (step caller) queues

end PrivateQueues

namespace FutexUnlocker

def queuesAfter (kernel : Kernel) (u : FutexUnlocker) (queues : PrivateQueues) (lockAddr : Addr)
    (maxAttempts : Nat) : PrivateQueues :=
  queues.run kernel.getpid ((unlock kernel lockAddr maxAttempts).run { u with log := [] }).2.log

def LeavesNoSleeper (kernel : Kernel) (u : FutexUnlocker) (queues : PrivateQueues) (target : Nat)
    (lockAddr : Addr) (maxAttempts : Nat) : Prop :=
  ((unlock kernel lockAddr maxAttempts).run { u with log := [] }).1 = true →
    queuesAfter kernel u queues lockAddr maxAttempts (target, lockAddr) = []

end FutexUnlocker

end DeadlockInterceptor
