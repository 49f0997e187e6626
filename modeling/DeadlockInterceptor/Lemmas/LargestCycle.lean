import DeadlockInterceptor.Graph.FirstPath
import DeadlockInterceptor.Impl.Monitoring
import DeadlockInterceptor.Lemmas.GroupCycles
import Mathlib.Data.List.TakeWhile

/-!
This module contains which cycles of groups `find_group_cycles` collects: those that are closed at the end of
a first path of the search. The largest one of them is returned, so it is a largest cycle of the graph exactly
if the search goes all the way round one of those.
-/

open Relation DirectedGraph

namespace DeadlockInterceptor

namespace findGroupCycles

variable {order : HashOrder Nat} {graph : GroupWaitGraph}

def neighbors (order : HashOrder Nat) (graph : GroupWaitGraph) (n : Nat) : List Nat :=
  order.order (graph.getD n ∅).toList

theorem mem_record {neighbor : Nat} {s : GroupDfsState} (h : neighbor ∈ s.path) (cyc : List Nat) :
    cyc ∈ (record neighbor s).groupCycles
      ↔
    cyc ∈ s.groupCycles ∨ cyc = s.path.dropWhile (· ≠ neighbor) := by
  have hne : s.path.dropWhile (· ≠ neighbor) ≠ [] := by
    intro hnil
    have hall := List.dropWhile_eq_nil_iff.mp hnil neighbor h
    simp at hall
  simp only [record]
  split
  . rw [List.mem_append, List.mem_singleton]
  . next hold =>
    have hmem : s.path.dropWhile (· ≠ neighbor) ∈ s.groupCycles := by
      by_contra hnew
      exact hold ⟨hne, hnew⟩
    constructor
    . exact .inl
    . rintro (hcyc | rfl)
      . exact hcyc
      . exact hmem

structure OnPath (s : GroupDfsState) : Prop where
  inStack : s.inStack = s.path.toFinset
  visited : ∀ n ∈ s.path, n ∈ (s.visited : Set Nat)

/--
What a search that follows `choices` from `s` on has seen and closed in `s'`.
-/
structure Followed (order : HashOrder Nat) (graph : GroupWaitGraph) (choices : List Nat)
    (s s' : GroupDfsState) : Prop where
  inStack : s'.inStack = s.inStack
  path : s'.path = s.path
  visited : (s'.visited : Set Nat) = Seen (neighbors order graph) s.visited choices
  cycles : ∀ cyc, cyc ∈ s'.groupCycles ↔
    cyc ∈ s.groupCycles ∨ Closes (neighbors order graph) s.visited s.path choices cyc

theorem Followed.onPath {choices : List Nat} {s s' : GroupDfsState}
    (h : Followed order graph choices s s') (hs : OnPath s) : OnPath s' where
  inStack := by rw [h.inStack, h.path, hs.inStack]
  visited := by
    rw [h.path, h.visited]
    exact fun n hn => subset_seen (hs.visited n hn)

theorem followed_nil (s : GroupDfsState) : Followed order graph [] s s where
  inStack := rfl
  path := rfl
  visited := seen_nil.symm
  cycles := by
    intro cyc
    exact (or_iff_left not_closes_nil).symm

theorem Followed.leave {n : Nat} {s s' : GroupDfsState}
    (h : Followed order graph (neighbors order graph n) (enter n s) s') (hs : OnPath s)
    (hn : n ∉ s.visited) : Followed order graph [n] s (leave n s') where
  inStack := by
    have hstack : n ∉ s.inStack := by
      rw [hs.inStack, List.mem_toFinset]
      exact fun hmem => hn (hs.visited n hmem)
    simp only [findGroupCycles.leave, h.inStack]
    exact Finset.erase_insert hstack
  path := by
    simp only [findGroupCycles.leave, h.path]
    exact List.dropLast_concat
  visited := by
    simp only [findGroupCycles.leave, h.visited, enter, Finset.coe_insert]
    exact (seen_singleton (by simpa using hn)).symm
  cycles := by
    intro cyc
    simp only [findGroupCycles.leave, h.cycles, enter, Finset.coe_insert]
    apply or_congr_right
    rw [closes_cons_of_notMem hs.visited (by simpa using hn), or_iff_left not_closes_nil]

theorem followed_record {n : Nat} {s : GroupDfsState} (hs : OnPath s) (hn : n ∈ s.inStack) :
    Followed order graph [n] s (record n s) where
  inStack := by
    simp only [record]
    split <;> rfl
  path := by
    simp only [record]
    split <;> rfl
  visited := by
    rw [hs.inStack, List.mem_toFinset] at hn
    rw [record_visited, seen_singleton_of_mem (hs.visited n hn)]
  cycles := by
    intro cyc
    rw [hs.inStack, List.mem_toFinset] at hn
    rw [mem_record hn, closes_cons_of_mem (hs.visited n hn), or_iff_left not_closes_nil]
    apply or_congr_right
    exact (and_iff_right hn).symm

theorem followed_skip {n : Nat} {s : GroupDfsState} (hs : OnPath s) (hvis : n ∈ s.visited)
    (hn : n ∉ s.inStack) : Followed order graph [n] s s where
  inStack := rfl
  path := rfl
  visited := (seen_singleton_of_mem (by simpa using hvis)).symm
  cycles := by
    intro cyc
    rw [hs.inStack, List.mem_toFinset] at hn
    rw [closes_cons_of_mem (by simpa using hvis), or_iff_left not_closes_nil]
    constructor
    . exact .inl
    . rintro (h | ⟨h, -⟩)
      . exact h
      . exact absurd h hn

theorem Followed.cons {n : Nat} {l : List Nat} {s s₂ s' : GroupDfsState}
    (h : Followed order graph [n] s s₂) (hs : OnPath s) (h' : Followed order graph l s₂ s') :
    Followed order graph (n :: l) s s' where
  inStack := h'.inStack.trans h.inStack
  path := h'.path.trans h.path
  visited := by rw [h'.visited, h.visited, ← seen_cons]
  cycles := by
    intro cyc
    rw [h'.cycles, h.cycles, h.visited, h.path, or_assoc]
    apply or_congr_right
    by_cases hn : n ∈ (s.visited : Set Nat)
    . rw [closes_cons_of_mem hn, closes_cons_of_mem hn, or_iff_left not_closes_nil,
        seen_singleton_of_mem hn]
    . rw [closes_cons_of_notMem hs.visited hn, closes_cons_of_notMem hs.visited hn,
        or_iff_left not_closes_nil]

theorem scan_followed {dfs : Nat → GroupDfsState → Option GroupDfsState}
    (hdfs : ∀ n s s', dfs n s = some s' → OnPath s → n ∉ s.visited → Followed order graph [n] s s')
    {l : List Nat} {s s' : GroupDfsState} (h : scan dfs l s = some s') (hs : OnPath s) :
    Followed order graph l s s' := by
  induction l generalizing s with
  | nil =>
    simp only [scan, Option.some.injEq] at h
    rw [h]
    apply followed_nil
  | cons n l ih =>
    unfold scan at h
    split at h
    . next hvis =>
      split at h
      . simp at h
      . next s₂ heq =>
        have hfirst := hdfs n s s₂ heq hs hvis
        exact hfirst.cons hs (ih h (hfirst.onPath hs))
    . next hvis =>
      split at h
      . next hstack =>
        have hfirst : Followed order graph [n] s (record n s) := followed_record hs hstack
        exact hfirst.cons hs (ih h (hfirst.onPath hs))
      . next hstack =>
        have hfirst : Followed order graph [n] s s := followed_skip hs (not_not.mp hvis) hstack
        exact hfirst.cons hs (ih h hs)

theorem OnPath.enter {s : GroupDfsState} (hs : OnPath s) (n : Nat) : OnPath (enter n s) where
  inStack := by
    simp only [findGroupCycles.enter, hs.inStack]
    ext x
    simp
  visited := by
    intro x hx
    simp only [findGroupCycles.enter, List.mem_append, List.mem_singleton, Finset.coe_insert] at hx ⊢
    rcases hx with hx | rfl
    . exact .inr (hs.visited x hx)
    . exact .inl rfl

theorem go_followed {fuel n : Nat} {s s' : GroupDfsState} (h : go order graph fuel n s = some s')
    (hs : OnPath s) (hn : n ∉ s.visited) : Followed order graph [n] s s' := by
  induction fuel generalizing n s s' with
  | zero => simp [go] at h
  | succ fuel ih =>
    unfold go at h
    split at h
    . simp at h
    . next s₂ heq =>
      simp only [Option.some.injEq] at h
      subst h
      have hscan := scan_followed (fun _ _ _ h hs hn => ih h hs hn) heq (hs.enter n)
      exact hscan.leave hs hn

theorem visitAll_followed {l : List Nat} {s : GroupDfsState} (hs : OnPath s) (hpath : s.path = []) :
    Followed order graph l s (visitAll order graph l s) := by
  induction l generalizing s with
  | nil => apply followed_nil
  | cons n l ih =>
    have hcons : visitAll order graph (n :: l) s
        = visitAll order graph l (if n ∉ s.visited then dfs order graph n s else s) := rfl
    have hfirst : Followed order graph [n] s (if n ∉ s.visited then dfs order graph n s else s) := by
      split
      . next hvis =>
        exact go_followed (Option.some_get (go_isSome_of_targets order graph n s)).symm hs hvis
      . next hvis =>
        apply followed_skip hs (not_not.mp hvis)
        rw [hs.inStack, hpath]
        exact Finset.notMem_empty n
    rw [hcons]
    exact hfirst.cons hs (ih (hfirst.onPath hs) (hfirst.path.trans hpath))

end findGroupCycles

section largestCycle

theorem length_le_foldl_largest (rest : List (List Nat)) (largest : List Nat) :
    ∀ cyc ∈ largest :: rest, cyc.length ≤ (rest.foldl (fun largest cycle =>
      if largest.length < cycle.length then cycle else largest) largest).length := by
  induction rest generalizing largest with
  | nil =>
    intro cyc hcyc
    rw [List.mem_singleton.mp hcyc]
    apply Nat.le_refl
  | cons next rest ih =>
    intro cyc hcyc
    rw [List.foldl_cons]
    split
    . next hlt =>
      rcases List.mem_cons.mp hcyc with rfl | hcyc
      . exact (Nat.le_of_lt hlt).trans (ih next next List.mem_cons_self)
      . exact ih next cyc hcyc
    . next hle =>
      rcases List.mem_cons.mp hcyc with rfl | hcyc
      . exact ih cyc cyc List.mem_cons_self
      . rcases List.mem_cons.mp hcyc with rfl | hcyc
        . exact (Nat.le_of_not_lt hle).trans (ih largest largest List.mem_cons_self)
        . exact ih largest cyc (List.mem_cons_of_mem largest hcyc)

theorem length_le_largestCycle {cycles : List (List Nat)} {cyc : List Nat} (h : cyc ∈ cycles) :
    cyc.length ≤ (largestCycle cycles).length := by
  cases cycles with
  | nil => exact absurd h List.not_mem_nil
  | cons first rest => exact length_le_foldl_largest rest first cyc h

end largestCycle

def groupNeighbors (ho : HashOrders) (s : Tracker) (n : Nat) : List Nat :=
  findGroupCycles.neighbors ho.groups (groupWaitGraph s (analyzeConflictGroups s)) n

def groupRoots (ho : HashOrders) (s : Tracker) : List Nat :=
  ho.groups.order (groupWaitGraph s (analyzeConflictGroups s)).keys

structure SimpleGroupCycle (s : Tracker) (cyc : List Nat) : Prop where
  isCycle : IsCycle (GroupWaits s) cyc
  nodup : cyc.Nodup

structure LargestGroupCycle (s : Tracker) (cyc : List Nat) : Prop extends SimpleGroupCycle s cyc where
  length_le : ∀ cyc', SimpleGroupCycle s cyc' → cyc'.length ≤ cyc.length

/--
If there are cycles of groups, the way on which the groups of a largest one are first come to passes through
them in the order of the cycle.
-/
def GoesRoundLargest (ho : HashOrders) (s : Tracker) : Prop :=
  (∃ cyc, SimpleGroupCycle s cyc) →
    ∃ pre cyc, LargestGroupCycle s cyc ∧ FirstPath (groupNeighbors ho s) ∅ (groupRoots ho s) (pre ++ cyc)

variable {ho : HashOrders} {s : Tracker}

theorem mem_groupNeighbors {i j : Nat} : j ∈ groupNeighbors ho s i ↔ GroupWaits s i j := by
  rw [groupNeighbors, findGroupCycles.neighbors, HashOrder.mem_order, USet.mem_toList,
    mem_groupWaitGraph_iff]

def collectedCycles (ho : HashOrders) (s : Tracker) : List (List Nat) :=
  (findGroupCycles.visitAll ho.groups (groupWaitGraph s (analyzeConflictGroups s)) (groupRoots ho s)
    ⟨[], ∅, ∅, []⟩).groupCycles

theorem findGroupCycles_eq (ho : HashOrders) (s : Tracker) :
    findGroupCycles ho s = largestCycle (collectedCycles ho s) := rfl

theorem mem_collectedCycles_iff {cyc : List Nat} :
    cyc ∈ collectedCycles ho s ↔ Closes (groupNeighbors ho s) ∅ [] (groupRoots ho s) cyc := by
  have hinit : findGroupCycles.OnPath ⟨[], ∅, ∅, []⟩ := ⟨rfl, by simp⟩
  have hfollowed : findGroupCycles.Followed ho.groups (groupWaitGraph s (analyzeConflictGroups s))
      (groupRoots ho s) ⟨[], ∅, ∅, []⟩ _ := findGroupCycles.visitAll_followed hinit rfl
  rw [collectedCycles, hfollowed.cycles]
  simp only [List.not_mem_nil, false_or, Finset.coe_empty]
  rfl

theorem isCycle_groupNeighbors_iff {cyc : List Nat} :
    IsCycle (fun i j => j ∈ groupNeighbors ho s i) cyc ↔ IsCycle (GroupWaits s) cyc := by
  have hedge : (fun i j => j ∈ groupNeighbors ho s i) = GroupWaits s := by
    funext i j
    exact propext mem_groupNeighbors
  rw [hedge]

/--
The vector is a largest cycle exactly if the search goes all the way round one.
-/
theorem findGroupCycles_largest_iff (ho : HashOrders) (s : Tracker) :
    (∀ cyc, SimpleGroupCycle s cyc → cyc.length ≤ (findGroupCycles ho s).length)
      ↔
    GoesRoundLargest ho s := by
  constructor
  . rintro h ⟨cyc, hcyc⟩
    have hne : findGroupCycles ho s ≠ [] := by
      intro hnil
      have hle := h cyc hcyc
      rw [hnil, List.length_nil] at hle
      exact hcyc.isCycle.ne_nil (List.length_eq_zero_iff.mp (Nat.le_zero.mp hle))
    have hmem : findGroupCycles ho s ∈ collectedCycles ho s := by
      apply largestCycle_mem
      intro hnil
      rw [findGroupCycles_eq, hnil] at hne
      exact hne rfl
    obtain ⟨pre, hpath⟩ := (mem_collectedCycles_iff.mp hmem).exists_firstPath
    obtain ⟨hisCycle, hnodup⟩ := findGroupCycles_spec.1 hne
    exact ⟨pre, findGroupCycles ho s, ⟨⟨hisCycle, hnodup⟩, h⟩, hpath⟩
  . intro h cyc hcyc
    obtain ⟨pre, largest, hlargest, hpath⟩ := h ⟨cyc, hcyc⟩
    have hmem : largest ∈ collectedCycles ho s := by
      apply mem_collectedCycles_iff.mpr
      exact closes_of_isCycle (isCycle_groupNeighbors_iff.mpr hlargest.isCycle) hpath
    exact (hlargest.length_le cyc hcyc).trans (length_le_largestCycle hmem)

def chord : GlobalState :=
  .run [⟨.wake, 1, 0x10000, .bare⟩, ⟨.wake, 2, 0x10010, .bare⟩, ⟨.wake, 3, 0x10020, .bare⟩,
    ⟨.wait, 3, 0x10000, .bare⟩, ⟨.wait, 3, 0x10010, .bare⟩, ⟨.wait, 2, 0x10000, .bare⟩,
    ⟨.wait, 1, 0x10020, .bare⟩]

/-- The search goes straight from the group of the third thread to the one of the first thread and back. -/
theorem exists_largerCycle : ¬∀ (ho : HashOrders) (s : Tracker) (cyc : List Nat),
    SimpleGroupCycle s cyc → cyc.length ≤ (findGroupCycles ho s).length := by
  intro h
  have hround : SimpleGroupCycle chord.toTracker [0, 1, 2] := by
    refine ⟨⟨by simp, ?_⟩, by decide⟩
    intro i hi
    rw [← mem_groupWaitGraph_iff]
    revert i
    decide
  have hle := h ⟨default, default, default⟩ chord.toTracker [0, 1, 2] hround
  exact absurd hle (by decide)

end DeadlockInterceptor
