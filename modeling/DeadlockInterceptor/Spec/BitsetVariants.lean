import DeadlockInterceptor.Impl.Monitoring
import DeadlockInterceptor.Transition.Run

/-!
This module contains traces of futex calls in which some calls are replaced by their bitset variants, and
what it means that the tracker does not tell the two traces apart.
-/

namespace DeadlockInterceptor

structure Regs.Futex (regs : Regs) (op : UInt32) : Prop where
  syscall : regs.origRax = sysFutex
  op : (regs.rsi &&& futexCmdMask).toUInt32 = op

instance (regs : Regs) (op : UInt32) : Decidable (regs.Futex op) :=
  decidable_of_iff (regs.origRax = sysFutex ∧ (regs.rsi &&& futexCmdMask).toUInt32 = op)
    ⟨fun h => ⟨h.1, h.2⟩, fun h => ⟨h.1, h.2⟩⟩

def Regs.BitsetVariant (regs regs' : Regs) : Prop :=
  regs'.rdi = regs.rdi ∧
    ((regs.Futex futexWait ∧ regs'.Futex futexWaitBitset) ∨
      (regs.Futex futexWake ∧ regs'.Futex futexWakeBitset))

structure CallPair where
  env : Env
  tid : Pid
  regs : Regs
  regs' : Regs
  same_or_variant : regs' = regs ∨ regs.BitsetVariant regs'

abbrev TwoRuns := GlobalState × GlobalState

namespace Tracker

structure SameEntries (s s' : Tracker) : Prop where
  lockOwners : ∀ a, s'.lockOwners.lookup a = s.lockOwners.lookup a
  mem_threadLocks : ∀ t, t ∈ s'.threadLocks ↔ t ∈ s.threadLocks
  held : ∀ t a, s'.Held t a ↔ s.Held t a
  waitsFor : WaitsFor.Same s.waitsFor s'.waitsFor
  futexWaiters : ∀ a, s'.futexWaiters.lookup a = s.futexWaiters.lookup a

def AddsWaiter (s s' : Tracker) (t : ThreadName) : Prop :=
  ∃ a, (s.waiters a).count t < (s'.waiters a).count t

end Tracker

namespace TwoRuns

def step (p : TwoRuns) (c : CallPair) : TwoRuns :=
  (handleSyscall c.env c.tid (some c.regs) p.1, handleSyscall c.env c.tid (some c.regs') p.2)

def Agree (p : TwoRuns) : Prop := p.1.toTracker.SameEntries p.2.toTracker

def WakesUnregistered (p : TwoRuns) (c : CallPair) : Prop :=
  (c.regs.Futex futexWake ∨ c.regs.Futex futexWakeBitset →
    ¬p.1.AddsWaiter (p.step c).1.toTracker (p.1.threadIdentifier c.env.proc c.tid).1) ∧
  (c.regs'.Futex futexWake ∨ c.regs'.Futex futexWakeBitset →
    ¬p.2.AddsWaiter (p.step c).2.toTracker (p.2.threadIdentifier c.env.proc c.tid).1)

end TwoRuns

end DeadlockInterceptor
