import DeadlockInterceptor.Lemmas.ConflictGroups
import DeadlockInterceptor.Lemmas.IterationOrder

/-!
This module contains that `find_group_cycles` finds a cycle of groups exactly if there is one.
-/

open Relation DirectedGraph

namespace DeadlockInterceptor

def GroupWaits (s : Tracker) (i j : Nat) : Prop :=
  i ≠ j ∧ ∃ t u, s.Waits t u ∧ findGroup (analyzeConflictGroups s) t = some i ∧
    findGroup (analyzeConflictGroups s) u = some j

section graph

variable {groups : List ConflictGroup}

theorem mem_addTarget {graph : GroupWaitGraph} {waiterGroup : Nat} {u : ThreadName} {i j : Nat} :
    j ∈ (GroupWaitGraph.addTarget groups waiterGroup graph u).getD i ∅
      ↔
    j ∈ graph.getD i ∅ ∨ (i = waiterGroup ∧ findGroup groups u = some j ∧ j ≠ waiterGroup) := by
  unfold GroupWaitGraph.addTarget
  split
  . next targetGroup h =>
    rw [h, Option.some.injEq]
    split
    . next hne =>
      rw [AList.getD_insert]
      split
      . next hi =>
        subst hi
        rw [USet.mem_insert]
        constructor
        . rintro (rfl | hj)
          . exact .inr ⟨rfl, rfl, hne⟩
          . exact .inl hj
        . rintro (hj | ⟨-, rfl, -⟩)
          . exact .inr hj
          . exact .inl rfl
      . next hi => simp [hi]
    . next hne =>
      rw [not_not] at hne
      constructor
      . exact .inl
      . rintro (hj | ⟨-, rfl, hj⟩)
        . exact hj
        . exact absurd hne hj
  . next h => simp [h]

theorem mem_addWaiter {graph : GroupWaitGraph} {entry : Sigma fun _ : ThreadName => USet ThreadName}
    {i j : Nat} :
    j ∈ (GroupWaitGraph.addWaiter groups graph entry).getD i ∅
      ↔
    j ∈ graph.getD i ∅ ∨ (findGroup groups entry.1 = some i ∧
      ∃ u ∈ entry.2, findGroup groups u = some j ∧ j ≠ i) := by
  unfold GroupWaitGraph.addWaiter
  split
  . next waiterGroup h =>
    rw [h, Option.some.injEq]
    have hfold : ∀ (l : List ThreadName) (graph : GroupWaitGraph),
        j ∈ (l.foldl (GroupWaitGraph.addTarget groups waiterGroup) graph).getD i ∅
          ↔
        j ∈ graph.getD i ∅ ∨
          (waiterGroup = i ∧ ∃ u ∈ l, findGroup groups u = some j ∧ j ≠ i) := by
      intro l
      induction l with
      | nil => simp
      | cons u l ih =>
        intro graph
        rw [List.foldl_cons, ih, mem_addTarget]
        constructor
        . rintro ((hj | ⟨rfl, hu, hne⟩) | ⟨rfl, v, hv, hj⟩)
          . exact .inl hj
          . exact .inr ⟨rfl, u, List.mem_cons_self, hu, hne⟩
          . exact .inr ⟨rfl, v, List.mem_cons_of_mem u hv, hj⟩
        . rintro (hj | ⟨rfl, v, hv, hj⟩)
          . exact .inl (.inl hj)
          . rcases List.mem_cons.mp hv with rfl | hv
            . exact .inl (.inr ⟨rfl, hj⟩)
            . exact .inr ⟨rfl, v, hv, hj⟩
    exact hfold entry.2.toList graph
  . next h => simp [h]

theorem WaitsFor.edge_iff {w : WaitsFor} {t u : ThreadName} :
    w.Edge t u ↔ ∃ entry ∈ w.entries, entry.1 = t ∧ u ∈ entry.2 := by
  constructor
  . intro h
    unfold WaitsFor.Edge AList.getD at h
    cases hl : w.lookup t with
    | none =>
      rw [hl] at h
      exact absurd h (USet.notMem_empty u)
    | some waits =>
      rw [hl] at h
      exact ⟨⟨t, waits⟩, AList.mem_lookup_iff.mp hl, rfl, h⟩
  . rintro ⟨entry, hmem, rfl, hu⟩
    have hl : w.lookup entry.1 = some entry.2 := AList.mem_lookup_iff.mpr hmem
    rw [WaitsFor.Edge, AList.getD, hl]
    exact hu

theorem mem_groupWaitGraph_iff (s : Tracker) (i j : Nat) :
    j ∈ (groupWaitGraph s (analyzeConflictGroups s)).getD i ∅ ↔ GroupWaits s i j := by
  have hfold : ∀ (l : List (Sigma fun _ : ThreadName => USet ThreadName)) (graph : GroupWaitGraph),
      j ∈ (l.foldl (GroupWaitGraph.addWaiter (analyzeConflictGroups s)) graph).getD i ∅
        ↔
      j ∈ graph.getD i ∅ ∨ ∃ entry ∈ l, findGroup (analyzeConflictGroups s) entry.1 = some i ∧
        ∃ u ∈ entry.2, findGroup (analyzeConflictGroups s) u = some j ∧ j ≠ i := by
    intro l
    induction l with
    | nil => simp
    | cons entry l ih =>
      intro graph
      rw [List.foldl_cons, ih, mem_addWaiter, or_assoc, List.exists_mem_cons_iff]
  rw [groupWaitGraph, hfold]
  constructor
  . rintro (h | ⟨entry, hmem, ht, u, hu, hj, hne⟩)
    . exact absurd h (USet.notMem_empty j)
    . exact ⟨Ne.symm hne, entry.1, u, WaitsFor.edge_iff.mpr ⟨entry, hmem, rfl, hu⟩, ht, hj⟩
  . rintro ⟨hne, t, u, hwaits, ht, hu⟩
    obtain ⟨entry, hmem, rfl, hu'⟩ := WaitsFor.edge_iff.mp hwaits
    exact .inr ⟨entry, hmem, ht, u, hu', hu, Ne.symm hne⟩

end graph

namespace findGroupCycles

variable {order : HashOrder Nat} {graph : GroupWaitGraph}

def Edge (graph : GroupWaitGraph) (i j : Nat) : Prop := j ∈ graph.getD i ∅

/--
The invariant of the search: the stack is the path, what has been recorded are cycles, and as long as
nothing has been recorded no group that the search has left reaches a cycle.
-/
structure Searching (graph : GroupWaitGraph) (s : GroupDfsState) : Prop where
  inStack : s.inStack = s.path.toFinset
  subset : s.inStack ⊆ s.visited
  nodup : s.path.Nodup
  walk : s.path.IsChain (Edge graph)
  cycles : ∀ cyc ∈ s.groupCycles, IsCycle (Edge graph) cyc ∧ cyc.Nodup
  finished : s.groupCycles = [] → ∀ i ∈ s.visited, i ∉ s.inStack → ¬ReachesCycle (Edge graph) i

structure Searched (graph : GroupWaitGraph) (s s' : GroupDfsState) : Prop extends
    Searching graph s' where
  visited : s.visited ⊆ s'.visited
  stack_eq : s'.inStack = s.inStack
  path_eq : s'.path = s.path
  recorded : s.groupCycles ⊆ s'.groupCycles

theorem Searched.refl {s : GroupDfsState} (h : Searching graph s) : Searched graph s s :=
  ⟨h, subset_rfl, rfl, rfl, List.Subset.refl _⟩

theorem Searched.trans {s s' s'' : GroupDfsState} (h : Searched graph s s')
    (h' : Searched graph s' s'') : Searched graph s s'' where
  toSearching := h'.toSearching
  visited := h.visited.trans h'.visited
  stack_eq := h'.stack_eq.trans h.stack_eq
  path_eq := h'.path_eq.trans h.path_eq
  recorded := List.Subset.trans h.recorded h'.recorded

theorem searched_record {s : GroupDfsState} (h : Searching graph s) {current neighbor : Nat}
    (hlast : s.path.getLast? = some current) (hedge : Edge graph current neighbor)
    (hstack : neighbor ∈ s.inStack) :
    Searched graph s (record neighbor s) ∧ (record neighbor s).groupCycles ≠ [] := by
  rw [h.inStack, List.mem_toFinset] at hstack
  have hcycle : IsCycle (Edge graph) (s.path.dropWhile (· ≠ neighbor)) :=
    isCycle_dropWhile h.walk h.nodup hlast hedge hstack
  simp only [record]
  by_cases hnew : s.path.dropWhile (· ≠ neighbor) ∈ s.groupCycles
  . rw [if_neg (fun hnot => hnot.2 hnew)]
    exact ⟨.refl h, List.ne_nil_of_mem hnew⟩
  . rw [if_pos ⟨hcycle.ne_nil, hnew⟩]
    refine ⟨⟨⟨h.inStack, h.subset, h.nodup, h.walk, ?_, by simp⟩, subset_rfl, rfl, rfl, ?_⟩, by simp⟩
    . intro cyc hcyc
      rcases List.mem_append.mp hcyc with hcyc | hcyc
      . exact h.cycles cyc hcyc
      . rw [List.mem_singleton.mp hcyc]
        exact ⟨hcycle, h.nodup.sublist (List.dropWhile_sublist _)⟩
    . exact List.subset_append_left _ _

theorem scan_spec (current : Nat) {dfs : Nat → GroupDfsState → Option GroupDfsState}
    (hdfs : ∀ n s s', dfs n s = some s' → Edge graph current n → n ∉ s.visited →
      s.path.getLast? = some current → Searching graph s →
        Searched graph s s' ∧ n ∈ s'.visited)
    {l : List Nat} {s s' : GroupDfsState} (h : scan dfs l s = some s')
    (hl : ∀ n ∈ l, Edge graph current n) (hlast : s.path.getLast? = some current)
    (hs : Searching graph s) :
    Searched graph s s' ∧
      (s'.groupCycles = [] → ∀ n ∈ l, ¬ReachesCycle (Edge graph) n) := by
  induction l generalizing s with
  | nil =>
    simp only [scan, Option.some.injEq] at h
    subst h
    exact ⟨.refl hs, by simp⟩
  | cons n l ih =>
    have hn : Edge graph current n := hl n List.mem_cons_self
    have hl' : ∀ m ∈ l, Edge graph current m := fun m hm => hl m (List.mem_cons_of_mem n hm)
    -- after the neighbor `n` the loop goes on in `s2`
    have hstep : ∀ s2, scan dfs l s2 = some s' → Searched graph s s2 →
        (s2.groupCycles = [] → ¬ReachesCycle (Edge graph) n) →
        Searched graph s s' ∧
          (s'.groupCycles = [] → ∀ m ∈ n :: l, ¬ReachesCycle (Edge graph) m) := by
      intro s2 hscan hs2 hreach
      obtain ⟨hsearched, hrest⟩ := ih hscan hl' (by rw [hs2.path_eq, hlast]) hs2.toSearching
      refine ⟨hs2.trans hsearched, ?_⟩
      intro hnone m hm
      rcases List.mem_cons.mp hm with rfl | hm
      . apply hreach
        have := hsearched.recorded
        rwa [hnone, List.subset_nil] at this
      . exact hrest hnone m hm
    unfold scan at h
    split at h
    . next hvis =>
      split at h
      . simp at h
      . next s2 heq =>
        obtain ⟨hs2, hmem⟩ := hdfs n s s2 heq hn hvis hlast hs
        apply hstep s2 h hs2
        intro hnone
        apply hs2.finished hnone n hmem
        rw [hs2.stack_eq]
        exact fun hin => hvis (hs.subset hin)
    . next hvis =>
      rw [not_not] at hvis
      split at h
      . next hstack =>
        obtain ⟨hs2, hsome⟩ := searched_record hs hlast hn hstack
        exact hstep _ h hs2 (fun hnone => absurd hnone hsome)
      . next hstack => exact hstep s h (.refl hs) (fun hnone => hs.finished hnone n hvis hstack)

theorem Searching.enter {n : Nat} {s : GroupDfsState} (h : Searching graph s) (hvis : n ∉ s.visited)
    (hedge : ∀ current ∈ s.path.getLast?, Edge graph current n) : Searching graph (enter n s) where
  inStack := by
    simp only [findGroupCycles.enter, h.inStack]
    ext x
    simp
  subset := Finset.insert_subset_insert n h.subset
  nodup := by
    have hpath : n ∉ s.path := by
      intro hin
      rw [← List.mem_toFinset, ← h.inStack] at hin
      exact hvis (h.subset hin)
    simp only [findGroupCycles.enter]
    rw [List.nodup_append]
    refine ⟨h.nodup, List.nodup_singleton n, ?_⟩
    intro a ha b hb heq
    rw [List.mem_singleton] at hb
    subst heq hb
    exact hpath ha
  walk := by
    simp only [findGroupCycles.enter]
    rw [List.isChain_append]
    refine ⟨h.walk, List.isChain_singleton n, ?_⟩
    intro current hcurrent b hb
    rw [List.head?_singleton, Option.mem_def, Option.some.injEq] at hb
    subst hb
    exact hedge current hcurrent
  cycles := h.cycles
  finished := by
    intro hnone i hi hin
    simp only [findGroupCycles.enter, Finset.mem_insert, not_or] at hi hin
    rcases hi with rfl | hi
    . exact absurd rfl hin.1
    . exact h.finished hnone i hi hin.2

theorem Searched.leave {n : Nat} {s s' : GroupDfsState} (h : Searched graph (findGroupCycles.enter n s) s')
    (hs : Searching graph s) (hvis : n ∉ s.visited)
    (hreach : s'.groupCycles = [] → ∀ m, Edge graph n m → ¬ReachesCycle (Edge graph) m) :
    Searched graph s (leave n s') := by
  have hpop : s'.inStack.erase n = s.inStack := by
    rw [h.stack_eq]
    exact Finset.erase_insert fun hin => hvis (hs.subset hin)
  have hdrop : s'.path.dropLast = s.path := by
    rw [h.path_eq]
    exact List.dropLast_concat
  refine ⟨⟨?_, ?_, ?_, ?_, h.cycles, ?_⟩, ?_, hpop, hdrop, h.recorded⟩
  . simp only [findGroupCycles.leave, hpop, hdrop]
    exact hs.inStack
  . simp only [findGroupCycles.leave]
    exact (Finset.erase_subset n s'.inStack).trans h.subset
  . simp only [findGroupCycles.leave, hdrop]
    exact hs.nodup
  . simp only [findGroupCycles.leave, hdrop]
    exact hs.walk
  . intro hnone i hi hin
    by_cases hin' : i = n
    . subst hin'
      rw [reachesCycle_iff]
      rintro ⟨j, hij, hj⟩
      exact hreach hnone j hij hj
    . apply h.finished hnone i hi
      intro hmem
      exact hin (Finset.mem_erase.mpr ⟨hin', hmem⟩)
  . exact (Finset.subset_insert n s.visited).trans h.visited

theorem go_spec {fuel n : Nat} {s s' : GroupDfsState} (h : go order graph fuel n s = some s')
    (hedge : ∀ current ∈ s.path.getLast?, Edge graph current n) (hvis : n ∉ s.visited)
    (hs : Searching graph s) : Searched graph s s' ∧ n ∈ s'.visited := by
  induction fuel generalizing n s s' with
  | zero => simp [go] at h
  | succ fuel ih =>
    unfold go at h
    split at h
    . simp at h
    . next s2 heq =>
      simp only [Option.some.injEq] at h
      subst h
      obtain ⟨hsearched, hreach⟩ := scan_spec n
        (fun m s s' hm hedge hvis hlast hs => ih hm (by
          intro current hcurrent
          rw [hlast, Option.mem_def, Option.some.injEq] at hcurrent
          rwa [← hcurrent]) hvis hs) heq
        (fun m hm => by simpa [Edge] using hm) List.getLast?_concat (hs.enter hvis hedge)
      refine ⟨hsearched.leave hs hvis ?_, ?_⟩
      . intro hnone m hm
        exact hreach hnone m (by simpa [Edge] using hm)
      . exact hsearched.visited (Finset.mem_insert_self n s.visited)

theorem dfs_spec (order : HashOrder Nat) {n : Nat} {s : GroupDfsState} (hpath : s.path = []) (hvis : n ∉ s.visited)
    (hs : Searching graph s) :
    Searched graph s (dfs order graph n s) ∧ n ∈ (dfs order graph n s).visited := by
  apply go_spec (Option.some_get (go_isSome_of_targets order graph n s)).symm _ hvis hs
  simp [hpath]

theorem visitAll_spec (order : HashOrder Nat) {l : List Nat} {s : GroupDfsState} (hpath : s.path = [])
    (hs : Searching graph s) :
    Searched graph s (visitAll order graph l s) ∧ ∀ n ∈ l, n ∈ (visitAll order graph l s).visited := by
  induction l generalizing s with
  | nil => exact ⟨.refl hs, by simp⟩
  | cons n l ih =>
    have hstep : ∀ s2, Searched graph s s2 → n ∈ s2.visited →
        Searched graph s (visitAll order graph l s2) ∧
          ∀ m ∈ n :: l, m ∈ (visitAll order graph l s2).visited := by
      intro s2 hs2 hmem
      obtain ⟨h1, h2⟩ := ih (hs2.path_eq.trans hpath) hs2.toSearching
      refine ⟨hs2.trans h1, ?_⟩
      intro m hm
      rcases List.mem_cons.mp hm with rfl | hm
      . exact h1.visited hmem
      . exact h2 m hm
    have hcons : visitAll order graph (n :: l) s
        = visitAll order graph l (if n ∉ s.visited then dfs order graph n s else s) := rfl
    rw [hcons]
    split
    . next hvis =>
      obtain ⟨h1, h2⟩ := dfs_spec order hpath hvis hs
      exact hstep _ h1 h2
    . next hvis => exact hstep s (.refl hs) (not_not.mp hvis)

end findGroupCycles

section result

variable {s : Tracker} {ho : HashOrders}

theorem largestCycle_mem {cycles : List (List Nat)} (h : cycles ≠ []) : largestCycle cycles ∈ cycles := by
  cases cycles with
  | nil => exact absurd rfl h
  | cons cyc rest =>
    refine Run.foldl_invariant_mem (I := fun largest => largest ∈ cyc :: rest) ?_ List.mem_cons_self
    intro largest next hnext hlargest
    split
    . exact List.mem_cons_of_mem cyc hnext
    . exact hlargest

theorem GroupWaits.two_le_length {cyc : List Nat} (h : IsCycle (GroupWaits s) cyc) :
    2 ≤ cyc.length := by
  have hpos := h.length_pos
  by_contra hlt
  have hself := h.edge 0 hpos
  rw [succAt_of_last hpos (by omega)] at hself
  exact hself.1 rfl

theorem findGroupCycles_edge (s : Tracker) :
    findGroupCycles.Edge (groupWaitGraph s (analyzeConflictGroups s)) = GroupWaits s := by
  funext i j
  exact propext (mem_groupWaitGraph_iff s i j)

theorem findGroupCycles_spec :
    (findGroupCycles ho s ≠ [] →
      IsCycle (GroupWaits s) (findGroupCycles ho s) ∧ (findGroupCycles ho s).Nodup) ∧
      (findGroupCycles ho s = [] → ∀ i, ¬ReachesCycle (GroupWaits s) i) := by
  rw [← findGroupCycles_edge]
  simp only [findGroupCycles]
  generalize hgraph : groupWaitGraph s (analyzeConflictGroups s) = graph
  have hinit : findGroupCycles.Searching graph ⟨[], ∅, ∅, []⟩ :=
    ⟨rfl, subset_rfl, List.nodup_nil, List.isChain_nil, by simp, by simp⟩
  obtain ⟨hsearched, hall⟩ := findGroupCycles.visitAll_spec ho.groups
    (l := ho.groups.order graph.keys) rfl hinit
  generalize findGroupCycles.visitAll ho.groups graph (ho.groups.order graph.keys) ⟨[], ∅, ∅, []⟩
    = found at hsearched hall
  constructor
  . intro h
    apply hsearched.cycles
    apply largestCycle_mem
    rintro hnone
    rw [hnone] at h
    exact h rfl
  . intro h i hi
    have hnone : found.groupCycles = [] := by
      by_contra hsome
      have hmem := largestCycle_mem hsome
      rw [h] at hmem
      exact (hsearched.cycles [] hmem).1.ne_nil rfl
    -- a group that reaches a cycle has an edge, so the loop has come by it
    obtain ⟨j, hij, -⟩ := reachesCycle_iff.mp hi
    have hkey : i ∈ graph.keys := by
      rw [← AList.mem_keys]
      by_contra hmem
      unfold findGroupCycles.Edge AList.getD at hij
      rw [AList.lookup_eq_none.mpr hmem] at hij
      exact absurd hij (USet.notMem_empty j)
    have hvis := hall i (by simpa using hkey)
    exact hsearched.finished hnone i hvis (by simp [hsearched.stack_eq]) hi

theorem findGroupCycles_eq_nil_iff :
    findGroupCycles ho s = [] ↔ ∀ i, ¬TransGen (GroupWaits s) i i := by
  constructor
  . intro h i hi
    exact findGroupCycles_spec.2 h i ⟨i, .refl, hi⟩
  . intro h
    by_contra hsome
    have hcycle := (findGroupCycles_spec.1 hsome).1
    exact h _ (hcycle.transGen (List.head_mem hcycle.ne_nil))

theorem exists_transGen_groupWaits {cyc : List ThreadName} (h : IsCycle s.Waits cyc)
    {t u : ThreadName} (ht : t ∈ cyc) (hu : u ∈ cyc)
    (hne : findGroup (analyzeConflictGroups s) t ≠ findGroup (analyzeConflictGroups s) u) :
    ∃ i, TransGen (GroupWaits s) i i := by
  have hgroup : ∀ x ∈ cyc, ∃ i, findGroup (analyzeConflictGroups s) x = some i := by
    intro x hx
    obtain ⟨y, hxy, -⟩ := h.exists_succ hx
    exact exists_findGroup_of_mem_waitsFor (WaitsFor.Edge.mem hxy)
  let r (x y : ThreadName) : Prop := s.Waits x y ∧ x ∈ cyc ∧ y ∈ cyc
  have hr : IsCycle r cyc :=
    ⟨h.ne_nil, fun i hi => ⟨h.edge i hi, List.getElem_mem hi, succAt_mem cyc i hi⟩⟩
  let f (x : ThreadName) : Nat := (findGroup (analyzeConflictGroups s) x).getD 0
  have hlift : ∀ x y, ReflTransGen r x y → ReflTransGen (GroupWaits s) (f x) (f y) := by
    intro x y hxy
    refine ReflTransGen.lift' f ?_ _ _ hxy
    rintro a b ⟨hab, ha, hb⟩
    obtain ⟨i, hi⟩ := hgroup a ha
    obtain ⟨j, hj⟩ := hgroup b hb
    have hfa : f a = i := by simp [f, hi]
    have hfb : f b = j := by simp [f, hj]
    change ReflTransGen (GroupWaits s) (f a) (f b)
    rw [hfa, hfb]
    by_cases hij : i = j
    . rw [hij]
    . exact .single ⟨hij, a, b, hab, hi, hj⟩
  have hftu : f t ≠ f u := by
    obtain ⟨i, hi⟩ := hgroup t ht
    obtain ⟨j, hj⟩ := hgroup u hu
    rw [hi, hj] at hne
    simpa [f, hi, hj] using hne
  refine ⟨f t, ?_⟩
  rcases reflTransGen_iff_eq_or_transGen.mp (hlift t u (hr.reach ht hu)) with heq | htrans
  . exact absurd heq.symm hftu
  . exact htrans.trans_left (hlift u t (hr.reach hu ht))

end result

end DeadlockInterceptor
