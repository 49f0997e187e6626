import DeadlockInterceptor.Lemmas.GroupPartition
import DeadlockInterceptor.Lemmas.GroupCycleCorrectness
import Mathlib.Data.List.Rotate

/-!
This module contains what `expand_group_cycle_to_threads` makes of a cycle of groups: a thread of every group
that waits for some thread of the next group, which need not be the thread that is taken there.
-/

open Relation DirectedGraph

namespace DeadlockInterceptor

def InGroup (s : Tracker) (i : Nat) (t : ThreadName) : Prop :=
  ∃ group, (analyzeConflictGroups s)[i]? = some group ∧ t ∈ group.threads

def WaitsInto (s : Tracker) (i j : Nat) (t : ThreadName) : Prop :=
  InGroup s i t ∧ ∃ u, InGroup s j u ∧ s.Waits t u

structure IsThreadCycle (s : Tracker) (groupCycle : List Nat) (threadCycle : List ThreadName) : Prop where
  length : threadCycle.length = groupCycle.length
  inGroup : ∀ (i : Nat) (h : i < groupCycle.length), ∃ t, threadCycle[i]? = some t ∧ InGroup s groupCycle[i] t
  waits : ∀ (i : Nat) (h : i < threadCycle.length), s.Waits threadCycle[i] (succAt threadCycle i h)

def FindsThreadCycle (ho : HashOrders) (s : Tracker) : Prop :=
  (∃ threadCycle, IsThreadCycle s (findGroupCycles ho s) threadCycle) →
    IsThreadCycle s (findGroupCycles ho s) (expandGroupCycleToThreads ho s (findGroupCycles ho s))

section groups

variable {s : Tracker} {i j : Nat} {t : ThreadName}

theorem inGroup_iff : InGroup s i t ↔ findGroup (analyzeConflictGroups s) t = some i := by
  rw [InGroup, exists_group_iff, findGroup_eq_some_iff]

theorem InGroup.eq (hi : InGroup s i t) (hj : InGroup s j t) : i = j := by
  rw [inGroup_iff] at hi hj
  rw [hi] at hj
  exact Option.some.inj hj

theorem exists_waitsInto (h : GroupWaits s i j) : ∃ t, WaitsInto s i j t := by
  obtain ⟨-, t, u, htu, ht, hu⟩ := h
  exact ⟨t, inGroup_iff.mpr ht, u, inGroup_iff.mpr hu, htu⟩

theorem nodup_analyze (s : Tracker) : (analyzeConflictGroups s).Nodup := by
  rw [List.nodup_iff_getElem?_ne_getElem?]
  intro i j hij hj heq
  have hgroup := List.getElem?_eq_getElem hj
  have hid := analyze_groupId hgroup
  rw [← heq] at hgroup
  have hid' := analyze_groupId hgroup
  omega

end groups

namespace expandGroupCycleToThreads

variable {ho : HashOrders} {s : Tracker} {i j : Nat} {t : ThreadName}

theorem groupToThreads_eq {group : ConflictGroup} (h : (analyzeConflictGroups s)[i]? = some group) :
    groupToThreads ho (analyzeConflictGroups s) i = ho.names.order group.threads.toList := by
  have hgroup := List.mem_of_getElem? h
  have hfilter : (analyzeConflictGroups s).filter (fun other => other.groupId = i) = [group] := by
    apply (nodup_analyze s).filter_eq_singleton hgroup
    intro other hother
    rw [decide_eq_true_eq, ← analyze_groupId h]
    constructor
    . exact eq_of_groupId_eq hother hgroup
    . rintro rfl
      rfl
  rw [groupToThreads, hfilter, List.flatMap_singleton]

theorem mem_groupToThreads : t ∈ groupToThreads ho (analyzeConflictGroups s) i ↔ InGroup s i t := by
  rw [InGroup, exists_group_iff, groupToThreads, List.mem_flatMap]
  simp only [List.mem_filter, decide_eq_true_eq, HashOrder.mem_order, USet.mem_toList, and_assoc]

theorem test_iff :
    ((s.waitsFor.getD t ∅).toList.any fun target =>
      (groupToThreads ho (analyzeConflictGroups s) j).any (target = ·)) = true
      ↔
    ∃ u, InGroup s j u ∧ s.Waits t u := by
  simp only [List.any_eq_true, decide_eq_true_eq, mem_groupToThreads, exists_eq_right']
  apply exists_congr
  intro u
  exact and_comm

theorem threadOf_spec (h : ∃ t, WaitsInto s i j t) :
    ∃ t, threadOf ho s (analyzeConflictGroups s) i j = some t ∧ WaitsInto s i j t := by
  simp only [threadOf]
  split
  . next thread hfind =>
    have htest := List.find?_some hfind
    have hmem := List.mem_of_find?_eq_some hfind
    exact ⟨thread, rfl, mem_groupToThreads.mp hmem, test_iff.mp htest⟩
  . next hnone =>
    obtain ⟨t, ht, hwaits⟩ := h
    exfalso
    exact List.find?_eq_none.mp hnone t (mem_groupToThreads.mpr ht) (test_iff.mpr hwaits)

theorem threadOf_of_head? (hhead : (groupToThreads ho (analyzeConflictGroups s) i).head? = some t)
    (ht : WaitsInto s i j t) : threadOf ho s (analyzeConflictGroups s) i j = some t := by
  obtain ⟨threads, heq⟩ := List.head?_eq_some_iff.mp hhead
  have hfind : (groupToThreads ho (analyzeConflictGroups s) i).find? (fun thread =>
      (s.waitsFor.getD thread ∅).toList.any fun target =>
        (groupToThreads ho (analyzeConflictGroups s) j).any (target = ·)) = some t := by
    rw [heq]
    exact List.find?_cons_of_pos (test_iff.mpr ht.2)
  simp only [threadOf, hfind]

end expandGroupCycleToThreads

section expand

variable {ho : HashOrders} {s : Tracker} {groupCycle : List Nat}

theorem getElem?_zip_rotate {i : Nat} (h : i < groupCycle.length) :
    (groupCycle.zip (groupCycle.rotate 1))[i]? = some (groupCycle[i], succAt groupCycle i h) := by
  rw [List.getElem?_eq_getElem (by simp [h])]
  simp [succAt, List.getElem_rotate]

theorem expandGroupCycleToThreads_spec (ho : HashOrders) (hcycle : IsCycle (GroupWaits s) groupCycle) :
    (expandGroupCycleToThreads ho s groupCycle).length = groupCycle.length ∧
    ∀ (i : Nat) (h : i < groupCycle.length), ∃ t, (expandGroupCycleToThreads ho s groupCycle)[i]? = some t ∧
      expandGroupCycleToThreads.threadOf ho s (analyzeConflictGroups s) groupCycle[i] (succAt groupCycle i h)
        = some t ∧
      WaitsInto s groupCycle[i] (succAt groupCycle i h) t := by
  let f : Nat × Nat → Option ThreadName := fun pair =>
    expandGroupCycleToThreads.threadOf ho s (analyzeConflictGroups s) pair.1 pair.2
  have hfound : ∀ (i : Nat) (h : i < groupCycle.length), ∃ t,
      f (groupCycle[i], succAt groupCycle i h) = some t ∧
      WaitsInto s groupCycle[i] (succAt groupCycle i h) t := by
    intro i h
    exact expandGroupCycleToThreads.threadOf_spec (exists_waitsInto (hcycle.edge i h))
  have hmap : expandGroupCycleToThreads ho s groupCycle
      = (groupCycle.zip (groupCycle.rotate 1)).map fun pair => (f pair).getD [] := by
    apply List.filterMap_eq_map_iff_forall_eq_some.mpr
    intro pair hpair
    obtain ⟨i, hi⟩ := List.getElem?_of_mem hpair
    have hlt : i < groupCycle.length := by
      have := (List.getElem?_eq_some_iff.mp hi).1
      simpa using this
    rw [getElem?_zip_rotate hlt, Option.some.injEq] at hi
    obtain ⟨t, ht, -⟩ := hfound i hlt
    rw [← hi]
    change f _ = _
    rw [ht, Option.getD_some]
  constructor
  . rw [hmap]
    simp
  . intro i h
    obtain ⟨t, ht, hwaits⟩ := hfound i h
    refine ⟨t, ?_, ht, hwaits⟩
    rw [hmap, List.getElem?_map, getElem?_zip_rotate h, Option.map_some, ht, Option.getD_some]

/--
Whoever waits for a thread of the next group waits for all threads there that wait for a thread of the group
after it.
-/
def ChoicesAgree (s : Tracker) (groupCycle : List Nat) : Prop :=
  ∀ (i : Nat) (h : i < groupCycle.length) (j : Nat) (h' : j < groupCycle.length),
    succAt groupCycle i h = groupCycle[j] →
    ∀ t u, WaitsInto s groupCycle[i] groupCycle[j] t → WaitsInto s groupCycle[j] (succAt groupCycle j h') u →
      s.Waits t u

theorem isThreadCycle_of_agree (hcycle : IsCycle (GroupWaits s) groupCycle) (h : ChoicesAgree s groupCycle) :
    IsThreadCycle s groupCycle (expandGroupCycleToThreads ho s groupCycle) := by
  obtain ⟨hlength, hspec⟩ := expandGroupCycleToThreads_spec ho hcycle
  constructor
  . exact hlength
  . intro i hi
    obtain ⟨t, ht, -, hwaits⟩ := hspec i hi
    exact ⟨t, ht, hwaits.1⟩
  . intro i hi
    have hi' : i < groupCycle.length := by rwa [hlength] at hi
    have hj : (i + 1) % groupCycle.length < groupCycle.length := Nat.mod_lt _ (by omega)
    obtain ⟨t, ht, -, hwaits_t⟩ := hspec i hi'
    obtain ⟨u, hu, -, hwaits_u⟩ := hspec _ hj
    have hsucc : succAt (expandGroupCycleToThreads ho s groupCycle) i hi = u := by
      obtain ⟨_, heq⟩ := List.getElem?_eq_some_iff.mp hu
      rw [← heq]
      simp only [succAt, List.get_eq_getElem, hlength]
    obtain ⟨_, heq⟩ := List.getElem?_eq_some_iff.mp ht
    rw [hsucc, heq]
    exact h i hi' _ hj rfl t u hwaits_t hwaits_u

theorem agree_of_isThreadCycle (hcycle : IsCycle (GroupWaits s) groupCycle) (hnodup : groupCycle.Nodup)
    (h : ∀ names, IsThreadCycle s groupCycle (expandGroupCycleToThreads { ho with names := names } s groupCycle)) :
    ChoicesAgree s groupCycle := by
  intro i hi j hj hij t u ht hu
  have hne : groupCycle[i] ≠ groupCycle[j] := by
    rw [← hij]
    exact (hcycle.edge i hi).1
  let preferred : HashOrders := { ho with names := .prefer fun x => decide (x = t ∨ x = u) }
  have hchosen : ∀ (k m : Nat) (x : ThreadName), (x = t ∨ x = u) → WaitsInto s k m x →
      (∀ y, (y = t ∨ y = u) → InGroup s k y → y = x) →
      expandGroupCycleToThreads.threadOf preferred s (analyzeConflictGroups s) k m = some x := by
    intro k m x hx hwaits honly
    apply expandGroupCycleToThreads.threadOf_of_head? _ hwaits
    obtain ⟨group, hgroup, hmem⟩ := hwaits.1
    rw [expandGroupCycleToThreads.groupToThreads_eq hgroup]
    apply HashOrder.head?_prefer group.threads.nodup hmem
    intro y hy
    rw [decide_eq_true_eq]
    constructor
    . intro hyx
      exact honly y hyx ⟨group, hgroup, hy⟩
    . rintro rfl
      exact hx
  have hchosen_t := hchosen _ _ t (.inl rfl) ht (by
    rintro y (rfl | rfl) hy
    . rfl
    . exact absurd (hy.eq hu.1) hne)
  have hchosen_u := hchosen _ _ u (.inr rfl) hu (by
    rintro y (rfl | rfl) hy
    . exact absurd (ht.1.eq hy) hne
    . rfl)
  obtain ⟨hlength, hspec⟩ := expandGroupCycleToThreads_spec preferred hcycle
  obtain ⟨t', ht', hthread_t, -⟩ := hspec i hi
  obtain ⟨u', hu', hthread_u, -⟩ := hspec j hj
  rw [hij, hchosen_t, Option.some.injEq] at hthread_t
  rw [hchosen_u, Option.some.injEq] at hthread_u
  subst hthread_t hthread_u
  obtain ⟨hlt, hget_t⟩ := List.getElem?_eq_some_iff.mp ht'
  obtain ⟨_, hget_u⟩ := List.getElem?_eq_some_iff.mp hu'
  have hwaits := (h preferred.names).waits i hlt
  have hpos : (i + 1) % groupCycle.length = j := by
    have hlt := Nat.mod_lt (i + 1) hcycle.length_pos
    have hij' : groupCycle[(i + 1) % groupCycle.length] = groupCycle[j] := hij
    exact (List.Nodup.getElem_inj_iff hnodup).mp hij'
  have hsucc : succAt (expandGroupCycleToThreads preferred s groupCycle) i hlt = u := by
    rw [← hget_u]
    simp only [succAt, List.get_eq_getElem, hlength, hpos]
  rw [hget_t, hsucc] at hwaits
  exact hwaits

theorem isThreadCycle_nil : IsThreadCycle s [] (expandGroupCycleToThreads ho s []) := by
  constructor
  . rfl
  . intro i h
    simp at h
  . intro i h
    simp [expandGroupCycleToThreads] at h

/--
Whatever the order in which the threads of a group are visited, a cycle of threads along the cycle of groups is
found if there is one: this is so exactly if there is none or the choices for neighbors agree.
-/
theorem findsThreadCycle_iff (ho : HashOrders) (s : Tracker) :
    (∀ names, FindsThreadCycle { ho with names := names } s)
      ↔
    (¬∃ threadCycle, IsThreadCycle s (findGroupCycles ho s) threadCycle) ∨
      ChoicesAgree s (findGroupCycles ho s) := by
  by_cases hnil : findGroupCycles ho s = []
  . apply iff_of_true
    . intro names hex
      change IsThreadCycle s (findGroupCycles ho s) (expandGroupCycleToThreads _ s (findGroupCycles ho s))
      rw [hnil]
      exact isThreadCycle_nil
    . right
      rw [hnil]
      intro i h
      simp at h
  . obtain ⟨hcycle, hnodup⟩ := findGroupCycles_spec.1 hnil
    constructor
    . intro h
      by_cases hex : ∃ threadCycle, IsThreadCycle s (findGroupCycles ho s) threadCycle
      . right
        exact agree_of_isThreadCycle hcycle hnodup fun names => h names hex
      . exact .inl hex
    . rintro (hno | hagree) names hex
      . exact absurd hex hno
      . exact isThreadCycle_of_agree hcycle hagree

end expand

namespace GlobalState

/--
The threads 1 and 2 share a lock, and so do 3 and 4. Thread 1 waits for 3, who waits for nobody, while 2 and 4
wait for each other.
-/
def greedyRun : List Event :=
  [⟨.wake, 1, 0x10000, .bare⟩, ⟨.wake, 2, 0x10000, .bare⟩, ⟨.wake, 3, 0x10010, .bare⟩,
    ⟨.wait, 1, 0x10010, .bare⟩, ⟨.wake, 4, 0x10010, .bare⟩, ⟨.wait, 2, 0x10010, .bare⟩,
    ⟨.wait, 4, 0x10000, .bare⟩]

theorem exists_missedThreadCycle : ¬∀ ho evs, FindsThreadCycle ho (run evs).toTracker := by
  intro h
  let thread : Char → Pid → ThreadName := fun c tid =>
    identifierOf ['t', 'h', 'r', 'e', 'a', 'd', '-', c] tid
  have hgroup : ∀ i t, findGroup (analyzeConflictGroups (run greedyRun).toTracker) t = some i →
      InGroup (run greedyRun).toTracker i t := fun i t => inGroup_iff.mpr
  have hcycle : findGroupCycles ⟨default, default, default⟩ (run greedyRun).toTracker = [1, 0] := by decide
  have hexpand : expandGroupCycleToThreads ⟨default, default, default⟩ (run greedyRun).toTracker [1, 0]
      = [thread '1' 1, thread '4' 4] := by decide
  have hwaits_24 : (run greedyRun).Waits (thread '2' 2) (thread '4' 4) := by decide
  have hwaits_42 : (run greedyRun).Waits (thread '4' 4) (thread '2' 2) := by decide
  have hfound := h ⟨default, default, default⟩ greedyRun
  rw [FindsThreadCycle, hcycle, hexpand] at hfound
  have hwaits := (hfound ⟨[thread '2' 2, thread '4' 4], rfl, by
    intro i hi
    match i, hi with
    | 0, _ => exact ⟨_, rfl, hgroup 1 _ (by decide)⟩
    | 1, _ => exact ⟨_, rfl, hgroup 0 _ (by decide)⟩, by
    intro i hi
    match i, hi with
    | 0, _ => exact hwaits_24
    | 1, hi =>
      rw [succAt_of_last hi rfl]
      exact hwaits_42⟩).waits 0 (by decide)
  revert hwaits
  decide

end GlobalState

end DeadlockInterceptor
