import DeadlockInterceptor.Impl.Helpers

/-!
This module contains the data the monitor keeps: the maps of the tracker and the other globals.
-/

namespace DeadlockInterceptor

/-- The counters are `size_t` in the source. They are not bounded here, so they do not wrap after 2^64 events. -/
structure LockStats where
  lockAddress : Addr
  currentOwner : ThreadName
  totalAcquisitions : Nat
  waitersCount : Nat
  waitingThreads : List ThreadName
  firstSeenTime : Time
  lastAcquireTime : Time
  deriving DecidableEq

structure DeadlockInfo where
  cycle : List ThreadName
  involvedLocks : List Addr
  deadlockId : Nat
  resolved : Bool := false
  deriving DecidableEq

abbrev WaitsFor := UMap ThreadName (USet ThreadName)

namespace WaitsFor

def Edge (waitsFor : WaitsFor) (t u : ThreadName) : Prop := u ∈ waitsFor.getD t ∅

instance (waitsFor : WaitsFor) (t u : ThreadName) : Decidable (waitsFor.Edge t u) :=
  inferInstanceAs (Decidable (u ∈ waitsFor.getD t ∅))

/--
The same graph in another iteration order of its containers.
-/
structure Same (w w' : WaitsFor) : Prop where
  mem : ∀ t, t ∈ w' ↔ t ∈ w
  edge : ∀ t u, w'.Edge t u ↔ w.Edge t u

end WaitsFor

structure Tracker where
  futexWaiters : UMap Addr (List ThreadName)
  waitStartTimes : UMap ThreadName (UMap Addr Time)
  waitsFor : WaitsFor
  threadLocks : UMap ThreadName (USet Addr)
  lockOwners : UMap Addr ThreadName
  lockStats : UMap Addr LockStats

/--
The globals of the monitor. The global `target_pid` is only ever initialized, `main` keeps the pid of
the command line in a local variable of the same name. `deadlock_counter` is a `size_t` that does not wrap here.
-/
structure GlobalState extends Tracker where
  targetPid : Pid
  threadInfoCache : UMap Pid ThreadInfo
  monitoringActive : Bool
  detectedDeadlocks : List DeadlockInfo
  deadlockCounter : Nat

def Tracker.empty : Tracker where
  futexWaiters := ∅
  waitStartTimes := ∅
  waitsFor := ∅
  threadLocks := ∅
  lockOwners := ∅
  lockStats := ∅

def GlobalState.init : GlobalState where
  toTracker := .empty
  targetPid := 0
  threadInfoCache := ∅
  monitoringActive := true
  detectedDeadlocks := []
  deadlockCounter := 0

namespace Tracker

def waiters (s : Tracker) (addr : Addr) : List ThreadName := s.futexWaiters.getD addr []

def Waits (s : Tracker) (t u : ThreadName) : Prop := u ∈ s.waitsFor.getD t ∅

def Held (s : Tracker) (t : ThreadName) (addr : Addr) : Prop := addr ∈ s.threadLocks.getD t ∅

def owner (s : Tracker) (addr : Addr) : Option ThreadName := s.lockOwners.lookup addr

structure Same (s s' : Tracker) : Prop where
  futexWaiters : ∀ addr, s'.futexWaiters.lookup addr = s.futexWaiters.lookup addr
  waitStartTimes : s'.waitStartTimes = s.waitStartTimes
  waitsFor : WaitsFor.Same s.waitsFor s'.waitsFor
  mem_threadLocks : ∀ t, t ∈ s'.threadLocks ↔ t ∈ s.threadLocks
  held : ∀ t addr, s'.Held t addr ↔ s.Held t addr
  owner : ∀ addr, s'.owner addr = s.owner addr
  lockStats : s'.lockStats = s.lockStats

instance (s : Tracker) (t u : ThreadName) : Decidable (s.Waits t u) :=
  inferInstanceAs (Decidable (u ∈ s.waitsFor.getD t ∅))

instance (s : Tracker) (t : ThreadName) (addr : Addr) : Decidable (s.Held t addr) :=
  inferInstanceAs (Decidable (addr ∈ s.threadLocks.getD t ∅))

end Tracker

namespace GlobalState

def threadIdentifier (s : GlobalState) (proc : ProcFs) (tid : Pid) : ThreadName × GlobalState :=
  let (name, cache) := getThreadIdentifier s.targetPid proc tid s.threadInfoCache
  (name, { s with threadInfoCache := cache })

end GlobalState

end DeadlockInterceptor
