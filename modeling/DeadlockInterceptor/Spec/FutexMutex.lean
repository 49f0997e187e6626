import DeadlockInterceptor.Spec.Trace
import DeadlockInterceptor.Graph.Cycle

/-!
This module contains the target as the monitor expects it: threads that use mutexes built on a futex.
Acquiring a free mutex makes no system call, acquiring a held one waits on its futex and blocks, and a
release wakes one waiter if there is any. The release itself and the system call that follows it are
separate steps, so another thread may take the mutex in between.
-/

open DirectedGraph

namespace DeadlockInterceptor

abbrev Mutex := { a : Addr // junkAddr a = false }

inductive Phase where
  | running
  | blocked (m : Mutex)
  | retrying (m : Mutex)
  | waking (m : Mutex)
  deriving DecidableEq

/--
The state of the target: the holders of the mutexes, the queues of the kernel and the threads.
-/
structure Program where
  holder : Mutex → Option Pid
  queue : Mutex → List Pid
  phase : Pid → Phase

namespace Program

def init : Program where
  holder _ := none
  queue _ := []
  phase _ := .running

def CanTry (p : Program) (t : Pid) (m : Mutex) : Prop :=
  p.phase t = .running ∨ p.phase t = .retrying m

/--
A step of one thread together with the futex call it makes, if any.
-/
inductive Step : Program → Option (Call Pid) → Program → Prop where
  | acquire {p : Program} {t : Pid} {m : Mutex} (htry : p.CanTry t m) (hfree : p.holder m = none) :
    Step p none { p with
      holder := Function.update p.holder m (some t)
      phase := Function.update p.phase t .running }
  | block {p : Program} {t u : Pid} {m : Mutex} (htry : p.CanTry t m) (hheld : p.holder m = some u) :
    Step p (some ⟨.wait, t, m⟩) { p with
      queue := Function.update p.queue m (p.queue m ++ [t])
      phase := Function.update p.phase t (.blocked m) }
  | release {p : Program} {t : Pid} {m : Mutex} (hrun : p.phase t = .running)
      (hholds : p.holder m = some t) (hnone : p.queue m = []) :
    Step p none { p with holder := Function.update p.holder m none }
  | releaseContended {p : Program} {t : Pid} {m : Mutex} (hrun : p.phase t = .running)
      (hholds : p.holder m = some t) (hsome : p.queue m ≠ []) :
    Step p none { p with
      holder := Function.update p.holder m none
      phase := Function.update p.phase t (.waking m) }
  | wakeNone {p : Program} {t : Pid} {m : Mutex} (hwake : p.phase t = .waking m)
      (hnone : p.queue m = []) :
    Step p (some ⟨.wake, t, m⟩) { p with phase := Function.update p.phase t .running }
  | wakeOne {p : Program} {t u : Pid} {m : Mutex} {rest : List Pid} (hwake : p.phase t = .waking m)
      (hsome : p.queue m = u :: rest) :
    Step p (some ⟨.wake, t, m⟩) { p with
      queue := Function.update p.queue m rest
      phase := Function.update (Function.update p.phase t .running) u (.retrying m) }

inductive Run : Program → Trace Pid → Prop where
  | init : Run .init []
  | silent {p q : Program} {tr : Trace Pid} (hrun : Run p tr) (hstep : Step p none q) : Run q tr
  | call {p q : Program} {tr : Trace Pid} {c : Call Pid} (hrun : Run p tr)
      (hstep : Step p (some c) q) : Run q (tr ++ [c])

/--
Different threads that each hold a mutex the previous one is blocked on, all around.
-/
structure Deadlock (p : Program) (ts : List (Pid × Mutex)) : Prop where
  two_le : 2 ≤ ts.length
  nodup : (ts.map Prod.fst).Nodup
  holds : ∀ tm ∈ ts, p.holder tm.2 = some tm.1
  blocked : ∀ (i : Nat) (h : i < ts.length), ts[i].1 ∈ p.queue (succAt ts i h).2

theorem Run.addr_not_junk {p : Program} {tr : Trace Pid} (h : Run p tr) :
    ∀ c ∈ tr, junkAddr c.addr = false := by
  induction h with
  | init => simp
  | silent _ _ ih => exact ih
  | @call p q tr c _ hstep ih =>
    intro d hd
    rcases List.mem_append.mp hd with hd | hd
    . exact ih d hd
    . rw [List.mem_singleton.mp hd]
      cases hstep with
      | @block _ _ m => exact m.2
      | @wakeNone _ m => exact m.2
      | @wakeOne _ _ m => exact m.2

end Program

end DeadlockInterceptor
