import DeadlockInterceptor.Lemmas.GroupCycles
import DeadlockInterceptor.Lemmas.Scan

/-!
This module contains that no deadlock falls between the two detectors: a cycle of threads from several
groups is a cycle of groups, and a cycle inside of one group is left to the search over the threads.
-/

open Relation DirectedGraph

namespace DeadlockInterceptor

theorem analyze_groupId {s : Tracker} {i : Nat} {group : ConflictGroup}
    (h : (analyzeConflictGroups s)[i]? = some group) : group.groupId = i := by
  have hcore : ((analyzeConflictGroups s).map ConflictGroup.core)[i]? = some group.core := by
    rw [List.getElem?_map, h]
    rfl
  rw [map_core_analyze, List.getElem?_map] at hcore
  obtain ⟨group', hgroup', heq⟩ := Option.map_eq_some_iff.mp hcore
  rw [← Grouping.partition_groupThreads.groupId i group' hgroup']
  exact (Prod.mk.inj heq).1.symm

theorem eq_of_groupId_eq {s : Tracker} {g h : ConflictGroup} (hg : g ∈ analyzeConflictGroups s)
    (hh : h ∈ analyzeConflictGroups s) (heq : g.groupId = h.groupId) : g = h := by
  obtain ⟨i, hi⟩ := List.getElem?_of_mem hg
  obtain ⟨j, hj⟩ := List.getElem?_of_mem hh
  rw [analyze_groupId hi, analyze_groupId hj] at heq
  rw [heq, hj] at hi
  exact (Option.some.inj hi).symm

variable {ho : HashOrders} {w : World}

theorem findGroupCycles_of_isCycle (ho : HashOrders) {cyc : List ThreadName} (hcyc : IsCycle w.Waits cyc)
    {t u : ThreadName} (ht : t ∈ cyc) (hu : u ∈ cyc) {g h : ConflictGroup}
    (hg : g ∈ analyzeConflictGroups w.toTracker) (hh : h ∈ analyzeConflictGroups w.toTracker)
    (htg : t ∈ g.threads) (huh : u ∈ h.threads) (hne : g ≠ h) :
    IsCycle (GroupWaits w.toTracker) (findGroupCycles ho w.toTracker) := by
  have hfind : findGroup (analyzeConflictGroups w.toTracker) t
      ≠ findGroup (analyzeConflictGroups w.toTracker) u := by
    rw [findGroup_eq_some_iff.mpr ⟨g, hg, rfl, htg⟩, findGroup_eq_some_iff.mpr ⟨h, hh, rfl, huh⟩]
    exact fun heq => hne (eq_of_groupId_eq hg hh (Option.some.inj heq))
  obtain ⟨i, hi⟩ := exists_transGen_groupWaits hcyc ht hu hfind
  apply (findGroupCycles_spec.1 _).1
  exact fun hnil => findGroupCycles_eq_nil_iff.mp hnil i hi

theorem exists_group_of_isCycle (hnil : findGroupCycles ho w.toTracker = []) {cyc : List ThreadName}
    (hcyc : IsCycle w.Waits cyc) :
    ∃ g ∈ analyzeConflictGroups w.toTracker, ∀ t ∈ cyc, t ∈ g.threads := by
  have hhead := List.head_mem hcyc.ne_nil
  have hgroup : ∀ t ∈ cyc, ∃ g ∈ analyzeConflictGroups w.toTracker, t ∈ g.threads := by
    intro t ht
    obtain ⟨u, htu, -⟩ := hcyc.exists_succ ht
    obtain ⟨i, hi⟩ := exists_findGroup_of_mem_waitsFor (s := w.toTracker) (WaitsFor.Edge.mem htu)
    obtain ⟨g, hg, -, htg⟩ := findGroup_eq_some_iff.mp hi
    exact ⟨g, hg, htg⟩
  obtain ⟨g, hg, hheadg⟩ := hgroup _ hhead
  refine ⟨g, hg, ?_⟩
  intro t ht
  obtain ⟨h, hh, hth⟩ := hgroup t ht
  by_contra htg
  have hne : g ≠ h := by
    rintro rfl
    exact htg hth
  exact (findGroupCycles_of_isCycle ho hcyc hhead ht hg hh hheadg hth hne).ne_nil hnil

namespace dfsDeadlock

variable {waitsFor : WaitsFor} {t y : ThreadName} {s s' : DfsState} {p : List ThreadName}

theorem Found.reverse_cycle (h : Found waitsFor t s s' p y) (hs : s.cycle = []) :
    s'.cycle.reverse = t :: p ++ [y] := by
  rw [h.cycle, hs]
  simp

theorem Found.isLasso (h : Found waitsFor t (enter t s) s' p y) (hs : s.cycle = [])
    (hy : y ∈ t :: p) : IsLasso waitsFor.Edge s'.cycle.reverse := by
  rw [h.reverse_cycle hs, isLasso_concat_iff, List.nodup_cons]
  refine ⟨h.walk, ⟨?_, h.nodup⟩, hy⟩
  exact fun hmem => h.unvisited t hmem (Finset.mem_insert_self t s.visited)

end dfsDeadlock

theorem ScanState.Unsuccessful.isLasso {st : ScanState} (h : Unsuccessful w st) {r : ThreadName}
    {d : DfsState} (hd : dfsDeadlock w.waitsFor r st.dfsState = (true, d)) :
    IsLasso w.waitsFor.Edge d.cycle.reverse := by
  obtain ⟨p, y, hfound⟩ := (h.called hd).found rfl
  apply hfound.isLasso rfl
  rcases hfound.hit with hy | hy
  . have hstack : st.dfsState.stack = ∅ := h.stack
    rw [dfsDeadlock.enter, hstack, Finset.mem_insert] at hy
    rw [hy.resolve_right (Finset.notMem_empty y)]
    exact List.mem_cons_self
  . exact List.mem_cons_of_mem r hy

/--
A cycle of threads from several groups is found as a cycle of groups. If no cycle of groups is found and
there is a cycle of threads, each of these lies in one group, and the first successful search from a thread
reports one of them.
-/
theorem combinedDetector_complete (ho : HashOrders) (env : ThreadName → ResolveEnv) (w : World) :
    (∀ cyc, IsCycle w.Waits cyc → ∀ t ∈ cyc, ∀ u ∈ cyc,
      ∀ g ∈ analyzeConflictGroups w.toTracker, ∀ h ∈ analyzeConflictGroups w.toTracker,
        t ∈ g.threads → u ∈ h.threads → g ≠ h →
          IsCycle (GroupWaits w.toTracker) (findGroupCycles ho w.toTracker) ∧
            2 ≤ (findGroupCycles ho w.toTracker).length) ∧
    (findGroupCycles ho w.toTracker = [] → (∃ cyc, IsCycle w.Waits cyc) →
      (∀ cyc, IsCycle w.Waits cyc →
        ∃ g ∈ analyzeConflictGroups w.toTracker, ∀ t ∈ cyc, t ∈ g.threads) ∧
      ∃ pre r post st d, w.waitsFor.keys = pre ++ r :: post ∧
        ScanState.IsCall env ⟨w, ∅, ∅⟩ pre r st true d ∧
        (∀ pre' r' post' st' d', pre = pre' ++ r' :: post' →
          ¬ScanState.IsCall env ⟨w, ∅, ∅⟩ pre' r' st' true d') ∧
        IsLasso w.Waits d.cycle.reverse ∧ IsCycle w.Waits (cyclePart d.cycle.reverse)) := by
  constructor
  . intro cyc hcyc t ht u hu g hg h hh htg huh hne
    have hfound := findGroupCycles_of_isCycle ho hcyc ht hu hg hh htg huh hne
    exact ⟨hfound, GroupWaits.two_le_length hfound⟩
  . rintro hnil ⟨cyc, hcyc⟩
    refine ⟨fun cyc hcyc => exists_group_of_isCycle hnil hcyc, ?_⟩
    rcases ScanState.exists_first_found env w.waitsFor.keys (ScanState.unsuccessful_init w) with
      ⟨pre, r, st, d, hfound⟩ | ⟨st, -, hst, -, hall⟩
    . obtain ⟨post, hkeys⟩ := hfound.keys_eq
      have hresult := hfound.call.result
      rw [hfound.unsuccessful.world] at hresult
      have hlasso := hfound.unsuccessful.isLasso hresult
      exact ⟨pre, r, post, st, d, hkeys, hfound.call, hfound.first, hlasso, hlasso.isCycle_cyclePart⟩
    . -- all threads have been left, so none of them reaches a cycle
      exfalso
      have hhead := List.head_mem hcyc.ne_nil
      obtain ⟨u, htu, -⟩ := hcyc.exists_succ hhead
      have hmem := WaitsFor.Edge.mem (w := w.waitsFor) htu
      apply hst.finished _ (hall _ (AList.mem_keys.mp hmem) hmem)
      . have hstack : st.dfsState.stack = ∅ := hst.stack
        rw [hstack]
        exact Finset.notMem_empty _
      . exact .of_isCycle hcyc hhead

end DeadlockInterceptor
