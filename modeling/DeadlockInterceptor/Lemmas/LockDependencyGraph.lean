import DeadlockInterceptor.Impl.Analysis
import DeadlockInterceptor.Lemmas.ExpandCycle

/-!
This module contains when the cycle search of `analyze_lock_dependency_graph` agrees with `find_group_cycles`. The
former also has the waits inside of one group in its graph.
-/

open Relation DirectedGraph

namespace DeadlockInterceptor

def GroupWaitsAny (s : Tracker) (i j : Nat) : Prop :=
  ∃ t u, s.Waits t u ∧ findGroup (analyzeConflictGroups s) t = some i ∧
    findGroup (analyzeConflictGroups s) u = some j

namespace analyzeLockDependencyGraph

open findGroupCycles (Edge Searching Searched)

section search

variable {order : HashOrder Nat} {graph : GroupWaitGraph}

/--
The search has left a vertex without success: what it has visited is as if nothing had been recorded before.
-/
structure Left (graph : GroupWaitGraph) (s s' : GroupDfsState) : Prop where
  searched : Searched graph { s with groupCycles := [] } { s' with groupCycles := [] }
  groupCycles : s'.groupCycles = s.groupCycles

def Found (graph : GroupWaitGraph) (s s' : GroupDfsState) : Prop :=
  ∃ cycle, s'.groupCycles = s.groupCycles ++ [cycle] ∧ IsCycle (Edge graph) cycle

theorem Left.found {s s2 s' : GroupDfsState} (h : Left graph s s2) (hfound : Found graph s2 s') :
    Found graph s s' := by
  obtain ⟨cycle, heq, hcycle⟩ := hfound
  exact ⟨cycle, by rw [heq, h.groupCycles], hcycle⟩

theorem scan_spec (current : Nat) {dfs : Nat → GroupDfsState → Option (Bool × GroupDfsState)}
    (hdfs : ∀ n s b s', dfs n s = some (b, s') → Edge graph current n → n ∉ s.visited →
      s.path.getLast? = some current → Searching graph { s with groupCycles := [] } →
        (b = false → Left graph s s' ∧ n ∈ s'.visited) ∧ (b = true → Found graph s s'))
    {l : List Nat} {s s' : GroupDfsState} {b : Bool} (h : scan dfs l s = some (b, s'))
    (hl : ∀ n ∈ l, Edge graph current n) (hlast : s.path.getLast? = some current)
    (hs : Searching graph { s with groupCycles := [] }) :
    (b = false → Left graph s s' ∧ ∀ n ∈ l, ¬ReachesCycle (Edge graph) n) ∧
      (b = true → Found graph s s') := by
  induction l generalizing s with
  | nil =>
    obtain ⟨rfl, rfl⟩ := Prod.mk.inj (Option.some.inj h)
    exact ⟨fun _ => ⟨⟨.refl hs, rfl⟩, by simp⟩, by simp⟩
  | cons n l ih =>
    have hn : Edge graph current n := hl n List.mem_cons_self
    have hl' : ∀ m ∈ l, Edge graph current m := fun m hm => hl m (List.mem_cons_of_mem n hm)
    -- the neighbor `n` has been left without success, and the loop goes on in `s2`
    have hstep : ∀ s2, scan dfs l s2 = some (b, s') → Left graph s s2 → ¬ReachesCycle (Edge graph) n →
        (b = false → Left graph s s' ∧ ∀ m ∈ n :: l, ¬ReachesCycle (Edge graph) m) ∧
          (b = true → Found graph s s') := by
      intro s2 hscan hleft hreach
      obtain ⟨hfalse, htrue⟩ := ih hscan hl' (by rw [← hlast]; exact congrArg _ hleft.searched.path_eq)
        hleft.searched.toSearching
      constructor
      . intro hb
        obtain ⟨hleft', hrest⟩ := hfalse hb
        refine ⟨⟨hleft.searched.trans hleft'.searched, hleft'.groupCycles.trans hleft.groupCycles⟩, ?_⟩
        intro m hm
        rcases List.mem_cons.mp hm with rfl | hm
        . exact hreach
        . exact hrest m hm
      . exact fun hb => hleft.found (htrue hb)
    unfold scan at h
    split at h
    . next hvis =>
      split at h
      . cases h
      . next s2 heq =>
        obtain ⟨rfl, rfl⟩ := Prod.mk.inj (Option.some.inj h)
        exact ⟨by simp, (hdfs n s true s2 heq hn hvis hlast hs).2⟩
      . next s2 heq =>
        obtain ⟨hleft, hmem⟩ := (hdfs n s false s2 heq hn hvis hlast hs).1 rfl
        apply hstep s2 h hleft
        apply hleft.searched.finished rfl n hmem
        intro hin
        apply hvis
        apply hs.subset
        rwa [← hleft.searched.stack_eq]
    . next hvis =>
      rw [not_not] at hvis
      split at h
      . next hstack =>
        have hpath : n ∈ s.path := by
          rw [← List.mem_toFinset]
          exact hs.inStack ▸ hstack
        have hcycle : IsCycle (Edge graph) (s.path.dropWhile (· ≠ n)) :=
          isCycle_dropWhile hs.walk hs.nodup hlast hn hpath
        simp only at h
        rw [if_pos hcycle.ne_nil] at h
        obtain ⟨rfl, rfl⟩ := Prod.mk.inj (Option.some.inj h)
        exact ⟨by simp, fun _ => ⟨_, rfl, hcycle⟩⟩
      . next hstack => exact hstep s h ⟨.refl hs, rfl⟩ (hs.finished rfl n hvis hstack)

theorem go_spec {fuel n : Nat} {s s' : GroupDfsState} {b : Bool} (h : go order graph fuel n s = some (b, s'))
    (hedge : ∀ current ∈ s.path.getLast?, Edge graph current n) (hvis : n ∉ s.visited)
    (hs : Searching graph { s with groupCycles := [] }) :
    (b = false → Left graph s s' ∧ n ∈ s'.visited) ∧ (b = true → Found graph s s') := by
  induction fuel generalizing n s s' b with
  | zero => cases h
  | succ fuel ih =>
    have hscan : ∀ b s2, scan (go order graph fuel) (order.order (graph.getD n ∅).toList)
        (findGroupCycles.enter n s) = some (b, s2) →
        (b = false → Left graph (findGroupCycles.enter n s) s2 ∧
          ∀ m ∈ order.order (graph.getD n ∅).toList, ¬ReachesCycle (Edge graph) m) ∧
        (b = true → Found graph (findGroupCycles.enter n s) s2) := by
      intro b s2 heq
      apply scan_spec n _ heq
      . intro m hm
        simpa [Edge] using hm
      . exact List.getLast?_concat
      . exact hs.enter hvis hedge
      . intro m s b s' hm hedge hvis hlast hs
        apply ih hm _ hvis hs
        intro current hcurrent
        rw [hlast, Option.mem_def, Option.some.injEq] at hcurrent
        rwa [← hcurrent]
    unfold go at h
    split at h
    . cases h
    . next s2 heq =>
      obtain ⟨rfl, rfl⟩ := Prod.mk.inj (Option.some.inj h)
      exact ⟨by simp, (hscan true s2 heq).2⟩
    . next s2 heq =>
      obtain ⟨rfl, rfl⟩ := Prod.mk.inj (Option.some.inj h)
      obtain ⟨hleft, hreach⟩ := (hscan false s2 heq).1 rfl
      refine ⟨fun _ => ⟨⟨?_, hleft.groupCycles⟩, ?_⟩, by simp⟩
      . apply hleft.searched.leave hs hvis
        intro _ m hm
        exact hreach m (by simpa [Edge] using hm)
      . exact hleft.searched.visited (Finset.mem_insert_self n s.visited)

theorem dfs_spec (order : HashOrder Nat) (graph : GroupWaitGraph) (n : Nat) (groupCycles : List (List Nat)) :
    (¬ReachesCycle (Edge graph) n ∧ (dfs order graph n ⟨groupCycles, ∅, ∅, []⟩).2.groupCycles = groupCycles) ∨
    ((∃ cycle, IsCycle (Edge graph) cycle) ∧
      (dfs order graph n ⟨groupCycles, ∅, ∅, []⟩).2.groupCycles ≠ []) := by
  obtain ⟨b, s', hgo⟩ : ∃ b s', dfs order graph n ⟨groupCycles, ∅, ∅, []⟩ = (b, s') := ⟨_, _, rfl⟩
  have hgo' : go order graph (graph.targets.card + 1) n ⟨groupCycles, ∅, ∅, []⟩ = some (b, s') := by
    rw [← hgo]
    exact (Option.some_get (go_isSome_of_targets order graph n ⟨groupCycles, ∅, ∅, []⟩)).symm
  have hspec := go_spec hgo' (by simp) (Finset.notMem_empty n)
    ⟨rfl, subset_rfl, List.nodup_nil, List.isChain_nil, by simp, by simp⟩
  rw [hgo]
  cases b with
  | false =>
    obtain ⟨hleft, hmem⟩ := hspec.1 rfl
    left
    refine ⟨hleft.searched.finished rfl n hmem ?_, hleft.groupCycles⟩
    have hstack := hleft.searched.stack_eq
    simp only at hstack
    simp [hstack]
  | true =>
    obtain ⟨cycle, heq, hcycle⟩ := hspec.2 rfl
    right
    refine ⟨⟨cycle, hcycle⟩, ?_⟩
    simp [heq]

theorem visitAll_cases (order : HashOrder Nat) (graph : GroupWaitGraph) (l : List Nat) (groupCycles : List (List Nat)) :
    (groupCycles ≠ [] ∨ (∃ n ∈ l, ReachesCycle (Edge graph) n) → visitAll order graph l groupCycles ≠ []) ∧
    (visitAll order graph l groupCycles ≠ [] → groupCycles ≠ [] ∨ ∃ cycle, IsCycle (Edge graph) cycle) := by
  induction l generalizing groupCycles with
  | nil =>
    refine ⟨?_, .inl⟩
    rintro (h | ⟨n, hn, -⟩)
    . exact h
    . cases hn
  | cons n l ih =>
    have hcons : visitAll order graph (n :: l) groupCycles
        = visitAll order graph l (dfs order graph n ⟨groupCycles, ∅, ∅, []⟩).2.groupCycles := rfl
    rw [hcons]
    obtain ⟨hmake, hneed⟩ := ih (dfs order graph n ⟨groupCycles, ∅, ∅, []⟩).2.groupCycles
    rcases dfs_spec order graph n groupCycles with ⟨hnot, heq⟩ | ⟨hcycle, hne⟩
    . rw [heq] at hmake hneed ⊢
      refine ⟨?_, hneed⟩
      rintro (h | ⟨m, hm, hreach⟩)
      . exact hmake (.inl h)
      . rcases List.mem_cons.mp hm with rfl | hm
        . exact absurd hreach hnot
        . exact hmake (.inr ⟨m, hm, hreach⟩)
    . exact ⟨fun _ => hmake (.inl hne), fun _ => .inr hcycle⟩

theorem mem_keys_of_reachesCycle {n : Nat} (h : ReachesCycle (Edge graph) n) : n ∈ graph.keys := by
  obtain ⟨m, hm, -⟩ := reachesCycle_iff.mp h
  rw [← AList.mem_keys]
  by_contra hn
  rw [Edge, AList.getD, AList.lookup_eq_none.mpr hn] at hm
  exact USet.notMem_empty m hm

theorem visitAll_ne_nil_iff (order order' : HashOrder Nat) :
    visitAll order graph (order'.order graph.keys) [] ≠ [] ↔ ∃ cycle, IsCycle (Edge graph) cycle := by
  obtain ⟨hmake, hneed⟩ := visitAll_cases order graph (order'.order graph.keys) []
  constructor
  . intro h
    exact (hneed h).resolve_left fun hnil => hnil rfl
  . rintro ⟨cycle, hcycle⟩
    have hreach := ReachesCycle.of_isCycle hcycle (List.head_mem hcycle.ne_nil)
    exact hmake (.inr ⟨_, by simpa using mem_keys_of_reachesCycle hreach, hreach⟩)

end search

section graph

variable {s : Tracker} {names : HashOrder ThreadName}

theorem threadToGroup_eq (groups : List ConflictGroup) :
    threadToGroup names groups
      =
    (groups.flatMap fun group => (names.order group.threads.toList).map fun t => (t, group.groupId)).foldl
      (fun m p => m.insert p.1 p.2) ∅ := by
  simp only [threadToGroup, List.foldl_flatMap, List.foldl_map]

theorem lookup_threadToGroup (t : ThreadName) :
    (threadToGroup names (analyzeConflictGroups s)).lookup t = findGroup (analyzeConflictGroups s) t := by
  have hpair : ∀ p ∈ (analyzeConflictGroups s).flatMap fun group =>
      (names.order group.threads.toList).map fun t => (t, group.groupId),
      findGroup (analyzeConflictGroups s) p.1 = some p.2 := by
    intro p hp
    obtain ⟨group, hgroup, hp⟩ := List.mem_flatMap.mp hp
    obtain ⟨u, hu, rfl⟩ := List.mem_map.mp hp
    exact findGroup_eq_some_iff.mpr ⟨group, hgroup, rfl, by simpa using hu⟩
  rw [threadToGroup_eq]
  cases hfind : findGroup (analyzeConflictGroups s) t with
  | none =>
    rw [Option.eq_none_iff_forall_ne_some]
    intro i
    have hnone : ∀ p ∈ (analyzeConflictGroups s).flatMap fun group =>
        (names.order group.threads.toList).map fun t => (t, group.groupId), p.1 ≠ t := by
      rintro p hp rfl
      rw [hpair p hp] at hfind
      cases hfind
    rw [ne_eq, AList.lookup_foldl_insert_eq_some fun p hp hk => absurd hk (hnone p hp)]
    rintro (h | ⟨p, hp, hk⟩)
    . cases h
    . exact hnone p hp hk
  | some i =>
    rw [AList.lookup_foldl_insert_eq_some]
    . obtain ⟨group, hgroup, rfl, ht⟩ := findGroup_eq_some_iff.mp hfind
      refine .inr ⟨(t, group.groupId), List.mem_flatMap.mpr ⟨group, hgroup, ?_⟩, rfl⟩
      exact List.mem_map.mpr ⟨t, by simpa using ht, rfl⟩
    . rintro p hp rfl
      rw [hpair p hp] at hfind
      exact Option.some.inj hfind

theorem mem_groupToGroupWaits_iff {m : UMap ThreadName Nat} {i j : Nat} :
    (i, j) ∈ (groupToGroupWaits s m).keys ↔
      ∃ t u, s.Waits t u ∧ m.lookup t = some i ∧ m.lookup u = some j := by
  have hrecord : ∀ (t : ThreadName) (waits : GroupToGroupWaits) (u : ThreadName),
      (i, j) ∈ recordWait m t waits u ↔ (i, j) ∈ waits ∨ (m.lookup t = some i ∧ m.lookup u = some j) := by
    intro t waits u
    unfold recordWait
    split
    . next waiterGroup targetGroup ht hu =>
      rw [AList.mem_insert, Prod.mk.injEq, ht, hu, Option.some.injEq, Option.some.injEq, or_comm]
      simp only [eq_comm]
    . next hnot =>
      rw [iff_self_or]
      rintro ⟨ht, hu⟩
      exact absurd hu (hnot i j ht)
  have hentry : ∀ (waits : GroupToGroupWaits) (entry : Sigma fun _ : ThreadName => USet ThreadName),
      (i, j) ∈ entry.2.toList.foldl (recordWait m entry.1) waits ↔
        (i, j) ∈ waits ∨ ∃ u ∈ entry.2.toList, m.lookup entry.1 = some i ∧ m.lookup u = some j := by
    intro waits entry
    exact Run.foldl_iff_exists (I := fun _ => True) (C := fun waits : GroupToGroupWaits => (i, j) ∈ waits)
      (P := fun u => m.lookup entry.1 = some i ∧ m.lookup u = some j) (fun _ _ _ => trivial)
      (fun waits u _ => hrecord entry.1 waits u) trivial entry.2.toList
  rw [← AList.mem_keys, groupToGroupWaits, Run.foldl_iff_exists (I := fun _ => True)
    (C := fun waits : GroupToGroupWaits => (i, j) ∈ waits) (fun _ _ _ => trivial)
    (fun waits entry _ => hentry waits entry) trivial]
  constructor
  . rintro (h | ⟨entry, hentry, u, hu, hi, hj⟩)
    . exact absurd h (AList.notMem_empty _)
    . exact ⟨entry.1, u, WaitsFor.edge_iff.mpr ⟨entry, hentry, rfl, hu⟩, hi, hj⟩
  . rintro ⟨t, u, hwaits, hi, hj⟩
    obtain ⟨entry, hentry, rfl, hu⟩ := WaitsFor.edge_iff.mp hwaits
    exact .inr ⟨entry, hentry, u, hu, hi, hj⟩

theorem edge_groupWaitsFor_iff {pairs : List (Nat × Nat)} {i j : Nat} :
    Edge (groupWaitsFor pairs) i j ↔ (i, j) ∈ pairs := by
  rw [groupWaitsFor, Run.foldl_iff_exists (I := fun _ => True) (C := fun graph => Edge graph i j)
    (P := fun pair => pair = (i, j)) (fun _ _ _ => trivial) _ trivial]
  . constructor
    . rintro (h | ⟨pair, hpair, rfl⟩)
      . exact absurd h (USet.notMem_empty j)
      . exact hpair
    . intro h
      exact .inr ⟨(i, j), h, rfl⟩
  . rintro graph ⟨k, m⟩ -
    rw [Edge, Edge, AList.getD_insert, Prod.mk.injEq]
    split
    . next hi =>
      subst hi
      rw [USet.mem_insert, or_comm, eq_comm (a := j)]
      simp
    . next hi => simp [Ne.symm hi]

end graph

end analyzeLockDependencyGraph

/--
The report has a cycle exactly if the waits between groups, those inside of one group included, have one.
-/
theorem analyzeLockDependencyGraph_ne_nil_iff (ho : HashOrders) (pairs : HashOrder (Nat × Nat)) (s : Tracker) :
    analyzeLockDependencyGraph ho pairs s ≠ [] ↔ ∃ cycle, IsCycle (GroupWaitsAny s) cycle := by
  have hedge : findGroupCycles.Edge (analyzeLockDependencyGraph.groupWaitsFor (pairs.order
      (analyzeLockDependencyGraph.groupToGroupWaits s
        (analyzeLockDependencyGraph.threadToGroup ho.names (analyzeConflictGroups s))).keys))
      = GroupWaitsAny s := by
    funext i j
    rw [eq_iff_iff, analyzeLockDependencyGraph.edge_groupWaitsFor_iff, HashOrder.mem_order,
      analyzeLockDependencyGraph.mem_groupToGroupWaits_iff]
    simp only [analyzeLockDependencyGraph.lookup_threadToGroup]
    rfl
  rw [← hedge]
  exact analyzeLockDependencyGraph.visitAll_ne_nil_iff ho.groups ho.groups

def WaitsInside (s : Tracker) : Prop := ∃ i t u, InGroup s i t ∧ InGroup s i u ∧ s.Waits t u

theorem exists_isCycle_any_iff (s : Tracker) :
    (∃ cycle, IsCycle (GroupWaitsAny s) cycle)
      ↔
    WaitsInside s ∨ ∃ i, TransGen (GroupWaits s) i i := by
  have hle : GroupWaits s ≤ GroupWaitsAny s := fun i j h => h.2
  constructor
  . rintro ⟨cycle, hcycle⟩
    by_cases hinside : WaitsInside s
    . exact .inl hinside
    . -- without waits inside of a group the graphs have the same edges
      right
      refine ⟨_, IsCycle.transGen ⟨hcycle.ne_nil, ?_⟩ (List.head_mem hcycle.ne_nil)⟩
      intro i hi
      obtain ⟨t, u, htu, ht, hu⟩ := hcycle.edge i hi
      refine ⟨?_, t, u, htu, ht, hu⟩
      intro heq
      rw [← heq] at hu
      exact hinside ⟨_, t, u, inGroup_iff.mpr ht, inGroup_iff.mpr hu, htu⟩
  . rintro (⟨i, t, u, ht, hu, htu⟩ | ⟨i, hi⟩)
    . exact ReachesCycle.exists_isCycle
        ⟨i, .refl, .single ⟨t, u, htu, inGroup_iff.mp ht, inGroup_iff.mp hu⟩⟩
    . exact ReachesCycle.exists_isCycle ⟨i, .refl, TransGen.mono hle _ _ hi⟩

/--
The two searches for a cycle of groups agree exactly if there are no waits inside of a group, or else also a
cycle of different groups.
-/
theorem cycleSearches_agree_iff (ho : HashOrders) (pairs : HashOrder (Nat × Nat)) (s : Tracker) :
    (analyzeLockDependencyGraph ho pairs s ≠ [] ↔ findGroupCycles ho s ≠ [])
      ↔
    (WaitsInside s → ∃ i, TransGen (GroupWaits s) i i) := by
  rw [analyzeLockDependencyGraph_ne_nil_iff, exists_isCycle_any_iff, ne_eq, findGroupCycles_eq_nil_iff,
    not_forall_not, or_iff_right_iff_imp]

namespace GlobalState

/--
The threads 1 and 2 are in one group, as both have held the second lock, and 2 waits for 1.
-/
def insideRun : List Event :=
  [⟨.wake, 1, 0x10000, .bare⟩, ⟨.wake, 1, 0x10010, .bare⟩, ⟨.wake, 2, 0x10010, .bare⟩,
    ⟨.wait, 2, 0x10000, .bare⟩]

theorem exists_disagreement : ¬∀ ho pairs evs,
    (analyzeLockDependencyGraph ho pairs (run evs).toTracker ≠ [] ↔
      findGroupCycles ho (run evs).toTracker ≠ []) := by
  intro h
  have hreport : analyzeLockDependencyGraph ⟨default, default, default⟩ default (run insideRun).toTracker = [[0]] := by
    decide
  have hfound : findGroupCycles ⟨default, default, default⟩ (run insideRun).toTracker = [] := by decide
  have hagree := h ⟨default, default, default⟩ default insideRun
  rw [hreport, hfound] at hagree
  exact hagree.mp (by simp) rfl

end GlobalState

end DeadlockInterceptor
