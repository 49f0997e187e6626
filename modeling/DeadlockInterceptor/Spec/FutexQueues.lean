import DeadlockInterceptor.Impl.Monitoring
import Mathlib.Logic.Function.Basic

/-!
This module contains the queues in which the kernel keeps the threads that are blocked on a futex, next to a
monitor that sees each futex call once.
-/

namespace DeadlockInterceptor

/--
A futex call with the arguments of a wake the monitor does not read: the number of threads to wake, and
which ones of the queue are left.
-/
structure QueueCall extends Event where
  count : Nat
  rest : List Pid

abbrev Queues := Addr → List Pid

namespace Queues

def step (queues : Queues) (c : QueueCall) : Queues :=
  match c.call with
  | .wait => Function.update queues c.addr (queues c.addr ++ [c.tid])
  | .wake => Function.update queues c.addr c.rest

/--
A call the kernel can see: a queued thread makes no call, and a wake takes as many threads as it is asked
for out of the queue, or all of them if there are less.
-/
structure Allows (queues : Queues) (c : QueueCall) : Prop where
  notQueued : ∀ a, c.tid ∉ queues a
  sublist : c.call = .wake → c.rest.Sublist (queues c.addr)
  length : c.call = .wake →
    c.rest.length = (queues c.addr).length - min c.count (queues c.addr).length

end Queues

structure Watched where
  queues : Queues
  monitor : GlobalState

namespace Watched

def init : Watched := ⟨fun _ => [], .init⟩

def step (m : Watched) (c : QueueCall) : Watched := ⟨m.queues.step c, m.monitor.step c.toEvent⟩

def Allows (m : Watched) (c : QueueCall) : Prop := m.queues.Allows c

end Watched

end DeadlockInterceptor
