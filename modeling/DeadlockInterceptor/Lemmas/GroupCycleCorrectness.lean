import DeadlockInterceptor.Lemmas.CombinedDetector

/-!
This module contains the correctness of `find_group_cycles` with respect to the groups as sets of threads.
-/

open Relation DirectedGraph

namespace DeadlockInterceptor

def WaitsAcross (s : Tracker) (i j : Nat) : Prop :=
  i ≠ j ∧ ∃ g ∈ analyzeConflictGroups s, ∃ h ∈ analyzeConflictGroups s, g.groupId = i ∧ h.groupId = j ∧
    ∃ t ∈ g.threads, ∃ u ∈ h.threads, s.Waits t u

theorem groupWaits_eq (s : Tracker) : GroupWaits s = WaitsAcross s := by
  funext i j
  simp only [GroupWaits, WaitsAcross, findGroup_eq_some_iff, eq_iff_iff]
  apply and_congr_right
  intro _
  constructor
  . rintro ⟨t, u, hwaits, ⟨g, hg, hi, ht⟩, h, hh, hj, hu⟩
    exact ⟨g, hg, h, hh, hi, hj, t, ht, u, hu, hwaits⟩
  . rintro ⟨g, hg, h, hh, hi, hj, t, ht, u, hu, hwaits⟩
    exact ⟨t, u, hwaits, ⟨g, hg, hi, ht⟩, h, hh, hj, hu⟩

structure IsGroupCycle (s : Tracker) (cyc : List Nat) : Prop where
  nodup : cyc.Nodup
  valid : ∀ i ∈ cyc, i < (analyzeConflictGroups s).length
  two_le : 2 ≤ cyc.length
  waits : ∀ (i : Nat) (h : i < cyc.length), WaitsAcross s cyc[i] (succAt cyc i h)

theorem lt_length_of_groupId {s : Tracker} {g : ConflictGroup} (hg : g ∈ analyzeConflictGroups s) :
    g.groupId < (analyzeConflictGroups s).length := by
  obtain ⟨i, hi⟩ := List.getElem?_of_mem hg
  rw [analyze_groupId hi]
  exact (List.getElem?_eq_some_iff.mp hi).1

theorem isGroupCycle_of_isCycle {s : Tracker} {cyc : List Nat} (h : IsCycle (GroupWaits s) cyc)
    (hnodup : cyc.Nodup) : IsGroupCycle s cyc where
  nodup := hnodup
  valid := by
    intro i hi
    obtain ⟨j, hij, -⟩ := h.exists_succ hi
    rw [groupWaits_eq] at hij
    obtain ⟨-, g, hg, -, -, rfl, -⟩ := hij
    exact lt_length_of_groupId hg
  two_le := GroupWaits.two_le_length h
  waits := by
    rw [groupWaits_eq] at h
    exact h.edge

/--
`find_group_cycles` returns, and it returns the empty vector exactly if no group waits for itself over others,
else such a cycle of groups.
-/
theorem findGroupCycles_correct (ho : HashOrders) (s : Tracker) :
    (∀ (k group : Nat) (state : GroupDfsState),
      findGroupCycles.go ho.groups (groupWaitGraph s (analyzeConflictGroups s))
          ((groupWaitGraph s (analyzeConflictGroups s)).targets.card + 1 + k) group state ≠ none) ∧
      (findGroupCycles ho s = [] ↔ ∀ i, ¬TransGen (WaitsAcross s) i i) ∧
      (findGroupCycles ho s = [] ∨ IsGroupCycle s (findGroupCycles ho s)) := by
  refine ⟨?_, ?_, ?_⟩
  . intro k group state
    apply Option.isSome_iff_ne_none.mp
    apply (findGroupCycles.isSearch _ _).isSome
    have hle := Finset.card_le_card (Finset.sdiff_subset
      (s := (groupWaitGraph s (analyzeConflictGroups s)).targets) (t := insert group state.visited))
    omega
  . rw [← groupWaits_eq]
    exact findGroupCycles_eq_nil_iff
  . by_cases hnil : findGroupCycles ho s = []
    . exact .inl hnil
    . obtain ⟨hcycle, hnodup⟩ := findGroupCycles_spec.1 hnil
      exact .inr (isGroupCycle_of_isCycle hcycle hnodup)

end DeadlockInterceptor
