import DeadlockInterceptor.Impl.GlobalState

/-!
This module contains the tracker: the handlers of the futex calls of the target. The functions in the
namespace `Tracker` are the bodies of the handlers behind the point where the identifier of the
thread is known, the functions in the namespace `GlobalState` are the handlers themselves.
-/

namespace DeadlockInterceptor

namespace Tracker

def updateLockStats (now : Time) (addr : Addr) (newOwner : ThreadName) (s : Tracker) : Tracker :=
  -- reading `futex_waiters[addr]` creates the entry
  let s := { s with futexWaiters := s.futexWaiters.touch addr [] }
  match s.lockStats.lookup addr with
  | none =>
    { s with
      lockStats := s.lockStats.insert addr {
        lockAddress := addr
        currentOwner := newOwner
        totalAcquisitions := 1
        waitersCount := (s.waiters addr).length
        waitingThreads := s.waiters addr
        firstSeenTime := now
        lastAcquireTime := now
      }
    }
  | some stats =>
    { s with
      lockStats := s.lockStats.insert addr { stats with
        currentOwner := newOwner
        totalAcquisitions := stats.totalAcquisitions + 1
        waitersCount := (s.waiters addr).length
        waitingThreads := s.waiters addr
        lastAcquireTime := now
      }
    }

def onLock (now : Time) (threadName : ThreadName) (addr : Addr) (s : Tracker) : Tracker :=
  updateLockStats now addr threadName
    { s with
      lockOwners := s.lockOwners.insert addr threadName
      threadLocks := s.threadLocks.insert threadName ((s.threadLocks.getD threadName ∅).insert addr)
      waitsFor := s.waitsFor.mapVal (·.erase threadName)
      futexWaiters := s.futexWaiters.mapVal (·.filter (· ≠ threadName))
    }

def addWaitEdge (threadName : ThreadName) (addr : Addr) (s : Tracker) : Tracker :=
  match s.lockOwners.lookup addr with
  | some owner =>
    if owner ≠ threadName then
      { s with
        waitsFor := s.waitsFor.insert threadName ((s.waitsFor.getD threadName ∅).insert owner) }
    else
      s
  | none => s

def refreshLockStats (addr : Addr) (s : Tracker) : Tracker :=
  match s.lockStats.lookup addr with
  | some stats =>
    { s with
      lockStats := s.lockStats.insert addr { stats with
        waitersCount := (s.waiters addr).length
        waitingThreads := s.waiters addr
      }
    }
  | none => s

def onWait (now : Time) (threadName : ThreadName) (addr : Addr) (s : Tracker) : Tracker :=
  let s :=
    { s with
      futexWaiters := s.futexWaiters.insert addr (s.waiters addr ++ [threadName])
      waitStartTimes :=
        s.waitStartTimes.insert threadName ((s.waitStartTimes.getD threadName ∅).insert addr now)
    }
  (s.addWaitEdge threadName addr).refreshLockStats addr

def onWake (addr : Addr) (s : Tracker) : Tracker :=
  match s.futexWaiters.lookup addr with
  | none => s
  | some _ => { s with futexWaiters := s.futexWaiters.erase addr }.refreshLockStats addr

end Tracker

structure Env where
  proc : ProcFs
  now : Time

def Env.bare : Env := ⟨⟨fun _ => none, fun _ _ => none⟩, 0⟩

namespace GlobalState

def onLock (env : Env) (tid : Pid) (addr : Addr) (s : GlobalState) : GlobalState :=
  if junkAddr addr then
    s
  else
    let (threadName, s) := s.threadIdentifier env.proc tid
    { s with toTracker := s.toTracker.onLock env.now threadName addr }

def onWait (env : Env) (tid : Pid) (addr : Addr) (s : GlobalState) : GlobalState :=
  if junkAddr addr then
    s
  else
    let (threadName, s) := s.threadIdentifier env.proc tid
    { s with toTracker := s.toTracker.onWait env.now threadName addr }

def onWake (env : Env) (tid : Pid) (addr : Addr) (s : GlobalState) : GlobalState :=
  -- the identifier is only printed
  let (_, s) := s.threadIdentifier env.proc tid
  { s with toTracker := s.toTracker.onWake addr }

end GlobalState

structure Regs where
  origRax : UInt64
  rdi : UInt64
  rsi : UInt64
  deriving DecidableEq

def sysFutex : UInt64 := 202

def futexWait : UInt32 := 0

def futexWake : UInt32 := 1

def futexWaitBitset : UInt32 := 9

def futexWakeBitset : UInt32 := 10

/-- `~(FUTEX_PRIVATE_FLAG | FUTEX_CLOCK_REALTIME)`, extended to the width of a register. -/
def futexCmdMask : UInt64 := 0xfffffffffffffe7f

def handleSyscall (env : Env) (tid : Pid) (regs : Option Regs) (s : GlobalState) : GlobalState :=
  match regs with
  | none => s
  | some regs =>
    if regs.origRax = sysFutex then
      let uaddr := regs.rdi
      let op := (regs.rsi &&& futexCmdMask).toUInt32
      if op = futexWait then
        s.onWait env tid uaddr
      else if op = futexWake then
        (s.onWake env tid uaddr).onLock env tid uaddr
      else if op = futexWaitBitset ∨ op = futexWakeBitset then
        s.onWait env tid uaddr
      else
        s
    else
      s

inductive FutexCall where
  | wait
  | wake
  deriving DecidableEq, Repr

structure Event where
  call : FutexCall
  tid : Pid
  addr : Addr
  env : Env

def Event.regs (e : Event) : Regs where
  origRax := sysFutex
  rdi := e.addr
  rsi :=
    match e.call with
    | .wait => 0
    | .wake => 1

namespace GlobalState

def step (s : GlobalState) (e : Event) : GlobalState := handleSyscall e.env e.tid (some e.regs) s

def run (evs : List Event) : GlobalState := evs.foldl step init

end GlobalState

end DeadlockInterceptor
