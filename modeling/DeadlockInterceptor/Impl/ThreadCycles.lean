import DeadlockInterceptor.Graph.Search
import DeadlockInterceptor.Impl.GlobalState
import Mathlib.Data.Finset.Dedup

/-!
This module contains the depth first search for a cycle of threads, and the locks such a cycle is about.
-/

namespace DeadlockInterceptor

namespace WaitsFor

def targets (waitsFor : WaitsFor) : Finset ThreadName :=
  (waitsFor.entries.flatMap fun kv => kv.2.toList).toFinset

theorem Edge.mem_targets {waitsFor : WaitsFor} {t u : ThreadName} (h : waitsFor.Edge t u) :
    u ∈ waitsFor.targets := by
  unfold Edge AList.getD at h
  cases hl : waitsFor.lookup t with
  | none =>
    rw [hl] at h
    exact absurd h (USet.notMem_empty u)
  | some waits =>
    rw [hl] at h
    rw [targets, List.mem_toFinset, List.mem_flatMap]
    exact ⟨⟨t, waits⟩, AList.mem_lookup_iff.mp hl, h⟩

end WaitsFor

structure DfsState where
  visited : Finset ThreadName
  stack : Finset ThreadName
  cycle : List ThreadName
  deriving DecidableEq

def DfsState.fresh : DfsState := ⟨∅, ∅, []⟩

namespace dfsDeadlock

variable (waitsFor : WaitsFor)

def enter (threadName : ThreadName) (s : DfsState) : DfsState :=
  { s with visited := insert threadName s.visited, stack := insert threadName s.stack }

def scan (dfs : ThreadName → DfsState → Option (Bool × DfsState)) (threadName : ThreadName) :
    List ThreadName → DfsState → Option (Bool × DfsState)
  | [], s => some (false, s)
  | neighbor :: rest, s =>
    if neighbor ∈ s.stack then
      some (true, { s with cycle := s.cycle ++ [neighbor, threadName] })
    else if neighbor ∉ s.visited then
      match dfs neighbor s with
      | none => none
      | some (true, s) => some (true, { s with cycle := s.cycle ++ [threadName] })
      | some (false, s) => scan dfs threadName rest s
    else
      scan dfs threadName rest s

/--
`dfs_deadlock` with a bound on the depth of the recursion, `none` if it does not suffice.
-/
def go : Nat → ThreadName → DfsState → Option (Bool × DfsState)
  | 0, _, _ => none
  | fuel + 1, threadName, s =>
    match scan (go fuel) threadName (waitsFor.getD threadName ∅).toList (enter threadName s) with
    | none => none
    | some (true, s) => some (true, s)
    | some (false, s) => some (false, { s with stack := s.stack.erase threadName })

theorem isSearch : DepthFirst.IsSearch DfsState.visited Prod.snd waitsFor.targets scan (go waitsFor) where
  nil _ _ s := ⟨(false, s), rfl, rfl⟩
  cons dfs t n l s := by
    unfold scan
    split
    . exact .done _ rfl
    . split
      . next hvis =>
        cases hdfs : dfs n s with
        | none => exact .failed hvis hdfs
        | some r =>
          obtain ⟨found, s'⟩ := r
          cases found with
          | true => exact .returned (true, s') _ hvis hdfs rfl
          | false => exact .resumed (false, s') hvis hdfs
      . exact .skip s rfl
  zero _ _ := rfl
  succ fuel t s := by
    refine ⟨(waitsFor.getD t ∅).toList, enter t s,
      fun r => bif r.1 then r else (false, { r.2 with stack := r.2.stack.erase t }),
      fun n hn => WaitsFor.Edge.mem_targets hn, rfl, fun r => ?_, ?_⟩
    . cases h : r.1 <;> simp [h]
    . unfold go
      rcases scan (go waitsFor fuel) t (waitsFor.getD t ∅).toList (enter t s) with _ | ⟨_ | _, s'⟩ <;> rfl

theorem go_isSome_of_targets (t : ThreadName) (s : DfsState) :
    (go waitsFor (waitsFor.targets.card + 1) t s).isSome :=
  (isSearch waitsFor).isSome_of_card t s

end dfsDeadlock

/--
Search for a cycle from `thread_name` on. The result says if the search ran into the stack. The vector
`cycle` has been extended by the thread on the stack and the path to it, the last thread first.
-/
def dfsDeadlock (waitsFor : WaitsFor) (threadName : ThreadName) (s : DfsState) : Bool × DfsState :=
  (dfsDeadlock.go waitsFor (waitsFor.targets.card + 1) threadName s).get
    (dfsDeadlock.go_isSome_of_targets waitsFor threadName s)

def findLocksInDeadlock (s : Tracker) (cycle : List ThreadName) : List Addr :=
  (cycle.zip (cycle.rotate 1)).foldl addLocks []
where
  /-- The locks of one thread. The set `seen_locks` has the elements of `involved_locks`. -/
  addLocks (involvedLocks : List Addr) (pair : ThreadName × ThreadName) : List Addr :=
    s.lockOwners.entries.foldl (fun involvedLocks entry =>
      if entry.2 = pair.1 then
        match s.futexWaiters.lookup entry.1 with
        | some waiters =>
          if pair.2 ∈ waiters ∧ entry.1 ∉ involvedLocks then
            involvedLocks ++ [entry.1]
          else
            involvedLocks
        | none => involvedLocks
      else
        involvedLocks) involvedLocks

end DeadlockInterceptor
