import DeadlockInterceptor.Impl.GroupCycles

/-!
This module contains what the reports of the monitor search for besides the detectors: short cycles of threads,
and cycles in a group wait graph of their own.
-/

namespace DeadlockInterceptor

/--
The cycles of two and of three threads, with one nested loop for each thread and each target.
-/
def findPotentialDeadlockScenarios (waitsFor : WaitsFor) : List (List ThreadName) :=
  waitsFor.entries.flatMap fun entry => entry.2.toList.flatMap (ofTarget1 entry.1)
where
  ofTarget1 (thread1 target1 : ThreadName) : List (List ThreadName) :=
    match waitsFor.lookup target1 with
    | some waits2 => waits2.toList.flatMap (ofTarget2 thread1 target1)
    | none => []
  ofTarget2 (thread1 target1 target2 : ThreadName) : List (List ThreadName) :=
    if target2 = thread1 then
      [[thread1, target1]]
    else
      match waitsFor.lookup target2 with
      | some waits3 => waits3.toList.flatMap (ofTarget3 thread1 target1 target2)
      | none => []
  ofTarget3 (thread1 target1 target2 target3 : ThreadName) : List (List ThreadName) :=
    if target3 = thread1 then [[thread1, target1, target2]] else []

abbrev GroupToGroupWaits := UMap (Nat × Nat) (List (ThreadName × ThreadName))

namespace analyzeLockDependencyGraph

def threadToGroup (names : HashOrder ThreadName) (groups : List ConflictGroup) : UMap ThreadName Nat :=
  groups.foldl (fun threadToGroup group =>
    (names.order group.threads.toList).foldl (fun threadToGroup thread =>
      threadToGroup.insert thread group.groupId) threadToGroup) ∅

/--
A thread without a group has the group `-1`, and its waits are not recorded.
-/
def recordWait (threadToGroup : UMap ThreadName Nat) (waiter : ThreadName) (groupToGroupWaits : GroupToGroupWaits)
    (target : ThreadName) : GroupToGroupWaits :=
  match threadToGroup.lookup waiter, threadToGroup.lookup target with
  | some waiterGroup, some targetGroup =>
    groupToGroupWaits.insert (waiterGroup, targetGroup)
      (groupToGroupWaits.getD (waiterGroup, targetGroup) [] ++ [(waiter, target)])
  | _, _ => groupToGroupWaits

def groupToGroupWaits (s : Tracker) (threadToGroup : UMap ThreadName Nat) : GroupToGroupWaits :=
  s.waitsFor.entries.foldl (fun groupToGroupWaits entry =>
    entry.2.toList.foldl (recordWait threadToGroup entry.1) groupToGroupWaits) ∅

def groupWaitsFor (pairs : List (Nat × Nat)) : GroupWaitGraph :=
  pairs.foldl (fun groupWaitsFor pair =>
    groupWaitsFor.insert pair.1 ((groupWaitsFor.getD pair.1 ∅).insert pair.2)) ∅

variable (order : HashOrder Nat) (graph : GroupWaitGraph)

def scan (dfs : Nat → GroupDfsState → Option (Bool × GroupDfsState)) :
    List Nat → GroupDfsState → Option (Bool × GroupDfsState)
  | [], s => some (false, s)
  | neighbor :: rest, s =>
    if neighbor ∉ s.visited then
      match dfs neighbor s with
      | none => none
      | some (true, s) => some (true, s)
      | some (false, s) => scan dfs rest s
    else if neighbor ∈ s.inStack then
      let cycle := s.path.dropWhile (· ≠ neighbor)
      if cycle ≠ [] then
        some (true, { s with groupCycles := s.groupCycles ++ [cycle] })
      else
        scan dfs rest s
    else
      scan dfs rest s

/--
The lambda `dfs` with a bound on the depth of the recursion, `none` if it does not suffice.
-/
def go : Nat → Nat → GroupDfsState → Option (Bool × GroupDfsState)
  | 0, _, _ => none
  | fuel + 1, current, s =>
    match scan (go fuel) (order.order (graph.getD current ∅).toList) (findGroupCycles.enter current s) with
    | none => none
    | some (true, s) => some (true, s)
    | some (false, s) => some (false, findGroupCycles.leave current s)

theorem isSearch :
    DepthFirst.IsSearch GroupDfsState.visited Prod.snd graph.targets (fun dfs _ => scan dfs) (go order graph) where
  nil _ _ s := ⟨(false, s), rfl, rfl⟩
  cons dfs _ n l s := by
    unfold scan
    split
    . next hvis =>
      cases hdfs : dfs n s with
      | none => exact .failed hvis hdfs
      | some r =>
        obtain ⟨found, s'⟩ := r
        cases found with
        | true => exact .returned (true, s') _ hvis hdfs rfl
        | false => exact .resumed (false, s') hvis hdfs
    . split
      . dsimp only
        split
        . exact .done _ rfl
        . exact .skip s rfl
      . exact .skip s rfl
  zero _ _ := rfl
  succ fuel n s := by
    refine ⟨order.order (graph.getD n ∅).toList, findGroupCycles.enter n s,
      fun r => bif r.1 then r else (false, findGroupCycles.leave n r.2),
      fun m hm => findGroupCycles.mem_targets graph (by simpa using hm), rfl, fun r => ?_, ?_⟩
    . cases h : r.1 <;> simp [h, findGroupCycles.leave]
    . unfold go
      rcases scan (go order graph fuel) (order.order (graph.getD n ∅).toList) (findGroupCycles.enter n s) with
        _ | ⟨_ | _, s'⟩ <;> rfl

theorem go_isSome_of_targets (n : Nat) (s : GroupDfsState) :
    (go order graph (graph.targets.card + 1) n s).isSome :=
  (isSearch order graph).isSome_of_card n s

def dfs (current : Nat) (s : GroupDfsState) : Bool × GroupDfsState :=
  (go order graph (graph.targets.card + 1) current s).get (go_isSome_of_targets order graph current s)

def visitAll (groups : List Nat) (groupCycles : List (List Nat)) : List (List Nat) :=
  groups.foldl (fun groupCycles group =>
    let s : GroupDfsState := ⟨groupCycles, ∅, ∅, []⟩
    if group ∉ s.visited then (dfs order graph group s).2.groupCycles else groupCycles) groupCycles

end analyzeLockDependencyGraph

/--
The vector `group_cycles` from which the report of cycles between groups is printed. `pairs` is the order of the
table of the waits between groups.
-/
def analyzeLockDependencyGraph (ho : HashOrders) (pairs : HashOrder (Nat × Nat)) (s : Tracker) : List (List Nat) :=
  let groups := analyzeConflictGroups s
  let threadToGroup := analyzeLockDependencyGraph.threadToGroup ho.names groups
  let groupToGroupWaits := analyzeLockDependencyGraph.groupToGroupWaits s threadToGroup
  let groupWaitsFor := analyzeLockDependencyGraph.groupWaitsFor (pairs.order groupToGroupWaits.keys)
  analyzeLockDependencyGraph.visitAll ho.groups groupWaitsFor (ho.groups.order groupWaitsFor.keys) []

end DeadlockInterceptor
