import DeadlockInterceptor.Graph.Search
import DeadlockInterceptor.Impl.ConflictGroups

/-!
This module contains the search for a cycle of groups that wait for each other, and the report that is made
of it.
-/

namespace DeadlockInterceptor

/--
The orders in which the local hash tables of the group functions are visited. There is one order for each type of keys,
which all tables with such keys share: in the source two of them may differ in their order.
-/
structure HashOrders where
  names : HashOrder ThreadName
  addrs : HashOrder Addr
  groups : HashOrder Nat

abbrev GroupWaitGraph := UMap Nat (USet Nat)

def findGroup (groups : List ConflictGroup) (threadName : ThreadName) : Option Nat :=
  (groups.find? fun group => threadName ∈ group.threads).map ConflictGroup.groupId

namespace GroupWaitGraph

def addTarget (groups : List ConflictGroup) (waiterGroup : Nat) (graph : GroupWaitGraph)
    (target : ThreadName) : GroupWaitGraph :=
  match findGroup groups target with
  | some targetGroup =>
    if targetGroup ≠ waiterGroup then
      graph.insert waiterGroup ((graph.getD waiterGroup ∅).insert targetGroup)
    else
      graph
  | none => graph

def addWaiter (groups : List ConflictGroup) (graph : GroupWaitGraph)
    (entry : Sigma fun _ : ThreadName => USet ThreadName) : GroupWaitGraph :=
  match findGroup groups entry.1 with
  | some waiterGroup => entry.2.toList.foldl (addTarget groups waiterGroup) graph
  | none => graph

def targets (graph : GroupWaitGraph) : Finset Nat :=
  (graph.entries.flatMap fun kv => kv.2.toList).toFinset

end GroupWaitGraph

def groupWaitGraph (s : Tracker) (groups : List ConflictGroup) : GroupWaitGraph :=
  s.waitsFor.entries.foldl (GroupWaitGraph.addWaiter groups) ∅

structure GroupDfsState where
  groupCycles : List (List Nat)
  visited : Finset Nat
  inStack : Finset Nat
  path : List Nat

namespace findGroupCycles

variable (order : HashOrder Nat) (graph : GroupWaitGraph)

def record (neighbor : Nat) (s : GroupDfsState) : GroupDfsState :=
  let cycle := s.path.dropWhile (· ≠ neighbor)
  if cycle ≠ [] ∧ cycle ∉ s.groupCycles then
    { s with groupCycles := s.groupCycles ++ [cycle] }
  else
    s

def enter (current : Nat) (s : GroupDfsState) : GroupDfsState :=
  { s with
    visited := insert current s.visited
    inStack := insert current s.inStack
    path := s.path ++ [current] }

def leave (current : Nat) (s : GroupDfsState) : GroupDfsState :=
  { s with inStack := s.inStack.erase current, path := s.path.dropLast }

def scan (dfs : Nat → GroupDfsState → Option GroupDfsState) :
    List Nat → GroupDfsState → Option GroupDfsState
  | [], s => some s
  | neighbor :: rest, s =>
    if neighbor ∉ s.visited then
      match dfs neighbor s with
      | none => none
      | some s => scan dfs rest s
    else if neighbor ∈ s.inStack then
      scan dfs rest (record neighbor s)
    else
      scan dfs rest s

/--
The lambda `dfs` with a bound on the depth of the recursion, `none` if it does not suffice.
-/
def go : Nat → Nat → GroupDfsState → Option GroupDfsState
  | 0, _, _ => none
  | fuel + 1, current, s =>
    match scan (go fuel) (order.order (graph.getD current ∅).toList) (enter current s) with
    | none => none
    | some s => some (leave current s)

theorem record_visited (neighbor : Nat) (s : GroupDfsState) :
    (record neighbor s).visited = s.visited := by
  simp only [record]
  split <;> rfl

theorem mem_targets {n m : Nat} (h : m ∈ graph.getD n ∅) : m ∈ graph.targets := by
  unfold AList.getD at h
  cases hl : graph.lookup n with
  | none =>
    rw [hl] at h
    exact absurd h (USet.notMem_empty m)
  | some groups =>
    rw [hl] at h
    rw [GroupWaitGraph.targets, List.mem_toFinset, List.mem_flatMap]
    exact ⟨⟨n, groups⟩, AList.mem_lookup_iff.mp hl, h⟩

theorem isSearch :
    DepthFirst.IsSearch GroupDfsState.visited id graph.targets (fun dfs _ => scan dfs) (go order graph) where
  nil _ _ s := ⟨s, rfl, rfl⟩
  cons dfs _ n l s := by
    unfold scan
    split
    . next hvis =>
      cases hdfs : dfs n s with
      | none => exact .failed hvis hdfs
      | some r => exact .resumed r hvis hdfs
    . split
      . exact .skip _ (record_visited n s)
      . exact .skip s rfl
  zero _ _ := rfl
  succ fuel n s := by
    refine ⟨order.order (graph.getD n ∅).toList, enter n s, leave n, fun m hm => mem_targets graph (by simpa using hm),
      rfl, fun _ => rfl, ?_⟩
    unfold go
    cases scan (go order graph fuel) (order.order (graph.getD n ∅).toList) (enter n s) <;> rfl

theorem go_isSome_of_targets (n : Nat) (s : GroupDfsState) :
    (go order graph (graph.targets.card + 1) n s).isSome :=
  (isSearch order graph).isSome_of_card n s

def dfs (current : Nat) (s : GroupDfsState) : GroupDfsState :=
  (go order graph (graph.targets.card + 1) current s).get
    (go_isSome_of_targets order graph current s)

def visitAll (groups : List Nat) (s : GroupDfsState) : GroupDfsState :=
  groups.foldl (fun s group => if group ∉ s.visited then dfs order graph group s else s) s

end findGroupCycles

/--
`std::max_element` by size, the first of the largest vectors.
-/
def largestCycle : List (List Nat) → List Nat
  | [] => []
  | cycle :: rest =>
    rest.foldl (fun largest cycle => if largest.length < cycle.length then cycle else largest) cycle

def findGroupCycles (ho : HashOrders) (s : Tracker) : List Nat :=
  let graph := groupWaitGraph s (analyzeConflictGroups s)
  let found := findGroupCycles.visitAll ho.groups graph (ho.groups.order graph.keys) ⟨[], ∅, ∅, []⟩
  largestCycle found.groupCycles

namespace expandGroupCycleToThreads

variable (ho : HashOrders) (s : Tracker) (groups : List ConflictGroup)

def groupToThreads (groupId : Nat) : List ThreadName :=
  (groups.filter fun group => group.groupId = groupId).flatMap fun group =>
    ho.names.order group.threads.toList

/--
A thread of the current group that waits for a thread of the next group, or else any thread.
-/
def threadOf (currentGroup nextGroup : Nat) : Option ThreadName :=
  let threads := groupToThreads ho groups currentGroup
  match threads.find? fun thread =>
      (s.waitsFor.getD thread ∅).toList.any fun target =>
        (groupToThreads ho groups nextGroup).any (target = ·) with
  | some thread => some thread
  | none => threads.head?

end expandGroupCycleToThreads

def expandGroupCycleToThreads (ho : HashOrders) (s : Tracker) (groupCycle : List Nat) :
    List ThreadName :=
  let groups := analyzeConflictGroups s
  (groupCycle.zip (groupCycle.rotate 1)).filterMap fun pair =>
    expandGroupCycleToThreads.threadOf ho s groups pair.1 pair.2

structure GroupResolution where
  groupId : Nat
  threads : USet ThreadName
  heldLocks : USet Addr
  wantedLocks : USet Addr
  conflictingGroups : USet Nat
  selectedVictim : ThreadName
  victimTid : Pid

structure GroupDeadlockInfo where
  groupCycle : List Nat := []
  threadCycle : List ThreadName := []
  involvedLocks : List Addr := []
  groupResolutions : List GroupResolution := []

namespace detectGroupDeadlock

variable (ho : HashOrders)

def selectVictim (threadCycle : List ThreadName) (group : ConflictGroup) : Option ThreadName :=
  match threadCycle.find? (· ∈ group.threads) with
  | some thread => if thread = [] then any else some thread
  | none => any
where
  any := (ho.names.order group.threads.toList).head?

/--
The resolutions of the groups of the cycle. The tid of the victim is read from its identifier, which may
throw.
-/
def resolutions (threadCycle : List ThreadName) (groups : List ConflictGroup) :
    List Nat → Except Exn (List GroupResolution)
  | [] => .ok []
  | groupId :: rest =>
    match groups[groupId]? with
    | none => resolutions threadCycle groups rest
    | some group => do
      let victim := selectVictim ho threadCycle group
      let victimTid ← victim.elim (.ok 0) extractTidFromIdentifier
      let others ← resolutions threadCycle groups rest
      return {
        groupId := groupId
        threads := group.threads
        heldLocks := group.locksHeld
        wantedLocks := group.locksWanted
        conflictingGroups := group.conflictingGroups
        selectedVictim := victim.getD []
        victimTid := victimTid } :: others

end detectGroupDeadlock

def detectGroupDeadlock (ho : HashOrders) (s : Tracker) : Except Exn GroupDeadlockInfo := do
  let groupCycle := findGroupCycles ho s
  if groupCycle.length < 2 then
    return {}
  let threadCycle := expandGroupCycleToThreads ho s groupCycle
  let groups := analyzeConflictGroups s
  let involvedLocks : USet Addr := USet.insertAll ∅ (groupCycle.flatMap fun groupId =>
    match groups[groupId]? with
    | some group => group.locksHeld.toList ++ group.locksWanted.toList
    | none => [])
  let groupResolutions ← detectGroupDeadlock.resolutions ho threadCycle groups groupCycle
  return {
    groupCycle := groupCycle
    threadCycle := threadCycle
    involvedLocks := ho.addrs.order involvedLocks.toList
    groupResolutions := groupResolutions }

end DeadlockInterceptor
