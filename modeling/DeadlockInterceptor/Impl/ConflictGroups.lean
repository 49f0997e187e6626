import DeadlockInterceptor.Impl.ThreadCycles

/-!
This module contains the grouping of threads that hold a common lock.
-/

namespace DeadlockInterceptor

structure ConflictGroup where
  groupId : Nat
  threads : USet ThreadName
  locksHeld : USet Addr
  locksWanted : USet Addr
  conflictingGroups : USet Nat
  deriving DecidableEq

def ConflictGroup.conflictsWith (group other : ConflictGroup) : Bool :=
  group.locksHeld.toList.any (· ∈ other.locksWanted) ||
    group.locksWanted.toList.any (· ∈ other.locksHeld)

structure Grouping where
  groups : List ConflictGroup
  threadToGroup : UMap ThreadName Nat
  visited : Finset ThreadName

namespace Grouping

def empty : Grouping := ⟨[], ∅, ∅⟩

def getOrCreateGroup (g : Grouping) (threadName : ThreadName) : Nat × Grouping :=
  match g.threadToGroup.lookup threadName with
  | some groupId => (groupId, g)
  | none =>
    let newGroup : ConflictGroup := ⟨g.groups.length, USet.insert ∅ threadName, ∅, ∅, ∅⟩
    (newGroup.groupId, { g with
      groups := g.groups ++ [newGroup]
      threadToGroup := g.threadToGroup.insert threadName newGroup.groupId })

def visit (g : Grouping) (threadName : ThreadName) : Grouping :=
  { g with visited := insert threadName g.visited }

def join (g : Grouping) (groupId : Nat) (otherThread : ThreadName) : Grouping where
  groups := g.groups.modify groupId fun group =>
    { group with threads := group.threads.insert otherThread }
  threadToGroup := g.threadToGroup.insert otherThread groupId
  visited := insert otherThread g.visited

def joinIfShares (threadName : ThreadName) (lockSet : USet Addr) (groupId : Nat) (g : Grouping)
    (other : Sigma fun _ : ThreadName => USet Addr) : Grouping :=
  if threadName = other.1 ∨ other.1 ∈ g.visited then
    g
  else if lockSet.toList.any (· ∈ other.2) then
    g.join groupId other.1
  else
    g

def addHolder (threadLocks : UMap ThreadName (USet Addr)) (g : Grouping)
    (entry : Sigma fun _ : ThreadName => USet Addr) : Grouping :=
  if entry.1 ∈ g.visited then
    g
  else
    let (groupId, g) := g.getOrCreateGroup entry.1
    threadLocks.entries.foldl (joinIfShares entry.1 entry.2 groupId) (g.visit entry.1)

def addWaiter (g : Grouping) (threadName : ThreadName) : Grouping :=
  if threadName ∉ g.visited then
    (g.getOrCreateGroup threadName).2.visit threadName
  else
    g

end Grouping

/--
Phase 1: the threads that share a lock with a thread, and the threads that wait without holding locks.
-/
def groupThreads (s : Tracker) : Grouping :=
  s.waitsFor.keys.foldl Grouping.addWaiter
    (s.threadLocks.entries.foldl (Grouping.addHolder s.threadLocks) .empty)

/--
Phase 2: the locks of a group. The loops only insert into sets, so their order is not modelled.
-/
def populate (s : Tracker) (group : ConflictGroup) : ConflictGroup :=
  { group with
    locksHeld := group.locksHeld.insertAll
      (group.threads.toList.flatMap fun threadName => (s.threadLocks.getD threadName ∅).toList)
    locksWanted := group.locksWanted.insertAll
      (group.threads.toList.flatMap fun threadName =>
        (s.waitsFor.getD threadName ∅).toList.flatMap fun waitingFor =>
          (s.lockOwners.entries.filter fun entry => entry.2 = waitingFor).map Sigma.fst) }

/--
Phase 3: the conflicts between different groups.
-/
def linkConflicts (groups : List ConflictGroup) : List ConflictGroup :=
  (List.range groups.length).foldl (fun groups i =>
    ((List.range groups.length).filter (i < ·)).foldl (link i) groups) groups
where
  link (i : Nat) (groups : List ConflictGroup) (j : Nat) : List ConflictGroup :=
    match groups[i]?, groups[j]? with
    | some groupI, some groupJ =>
      if groupI.conflictsWith groupJ then
        (groups.modify i fun g => { g with conflictingGroups := g.conflictingGroups.insert j }).modify j
          fun g => { g with conflictingGroups := g.conflictingGroups.insert i }
      else
        groups
    | _, _ => groups

def analyzeConflictGroups (s : Tracker) : List ConflictGroup :=
  linkConflicts ((groupThreads s).groups.map (populate s))

end DeadlockInterceptor
