import DeadlockInterceptor.Impl.GroupCycles
import DeadlockInterceptor.Transition.Run

/-!
This module contains that the groups of `analyze_conflict_groups` are a partition of the threads that hold
locks or wait, whatever the order of the containers is.
-/

namespace DeadlockInterceptor

namespace Grouping

structure Partition (g : Grouping) : Prop where
  groupId : ∀ (i : Nat) (group : ConflictGroup), g.groups[i]? = some group → group.groupId = i
  mem_threads : ∀ (i : Nat) (group : ConflictGroup), g.groups[i]? = some group →
    ∀ t, t ∈ group.threads ↔ g.threadToGroup.lookup t = some i
  lookup_lt : ∀ t i, g.threadToGroup.lookup t = some i → i < g.groups.length
  visited : ∀ t, t ∈ g.visited ↔ t ∈ g.threadToGroup

variable {g : Grouping} {t : ThreadName}

theorem partition_empty : empty.Partition where
  groupId i group h := by simp [empty] at h
  mem_threads i group h := by simp [empty] at h
  lookup_lt t i h := by simp [empty] at h
  visited t := by simp [empty]

theorem Partition.lookup_eq_none (h : g.Partition) (ht : t ∉ g.visited) :
    g.threadToGroup.lookup t = none := by
  rw [AList.lookup_eq_none]
  rwa [h.visited] at ht

theorem getOrCreateGroup_of_notMem (h : g.Partition) (ht : t ∉ g.visited) :
    g.getOrCreateGroup t
      =
    (g.groups.length, { g with
      groups := g.groups ++ [⟨g.groups.length, USet.insert ∅ t, ∅, ∅, ∅⟩]
      threadToGroup := g.threadToGroup.insert t g.groups.length }) := by
  simp only [getOrCreateGroup, h.lookup_eq_none ht]

theorem Partition.create (h : g.Partition) (ht : t ∉ g.visited) :
    ((g.getOrCreateGroup t).2.visit t).Partition := by
  rw [getOrCreateGroup_of_notMem h ht]
  simp only [visit]
  constructor
  . intro i group hi
    rw [List.getElem?_append] at hi
    split at hi
    . exact h.groupId i group hi
    . next hlt =>
      rw [List.getElem?_singleton] at hi
      split at hi
      . obtain rfl := Option.some.inj hi
        show g.groups.length = i
        omega
      . simp at hi
  . intro i group hi x
    rw [AList.lookup_insert_eq]
    rw [List.getElem?_append] at hi
    split at hi
    . next hlt =>
      rw [h.mem_threads i group hi x]
      split
      . next hx =>
        subst hx
        rw [h.lookup_eq_none ht, Option.some.injEq]
        exact iff_of_false (by simp) (by omega)
      . rfl
    . next hlt =>
      rw [List.getElem?_singleton] at hi
      split at hi
      . next hi0 =>
        obtain rfl := Option.some.inj hi
        rw [USet.mem_insert]
        have hlen : g.groups.length = i := by omega
        split
        . next hx => simp [hx, hlen]
        . next hx =>
          refine iff_of_false (by simp [hx]) ?_
          intro hlook
          have := h.lookup_lt x i hlook
          omega
      . simp at hi
  . intro x i hx
    rw [List.length_append, List.length_singleton]
    rw [AList.lookup_insert_eq] at hx
    split at hx
    . have := Option.some.inj hx
      omega
    . have := h.lookup_lt x i hx
      omega
  . intro x
    rw [Finset.mem_insert, AList.mem_insert, h.visited]

theorem Partition.join (h : g.Partition) {other : ThreadName} (hother : other ∉ g.visited)
    {groupId : Nat} (hid : groupId < g.groups.length) : (g.join groupId other).Partition := by
  have hget : ∀ (i : Nat) (group : ConflictGroup), (g.join groupId other).groups[i]? = some group →
      ∃ old, g.groups[i]? = some old ∧ group.groupId = old.groupId ∧
        ∀ x, x ∈ group.threads ↔ (x = other ∧ i = groupId) ∨ x ∈ old.threads := by
    intro i group hi
    rw [Grouping.join, List.getElem?_modify] at hi
    obtain ⟨old, hold, heq⟩ := Option.map_eq_some_iff.mp hi
    refine ⟨old, hold, ?_⟩
    subst heq
    split
    . next hg =>
      subst hg
      simp
    . next hg => simp [Ne.symm hg]
  constructor
  . intro i group hi
    obtain ⟨old, hold, hid', -⟩ := hget i group hi
    rw [hid']
    exact h.groupId i old hold
  . intro i group hi x
    obtain ⟨old, hold, -, hmem⟩ := hget i group hi
    rw [hmem, h.mem_threads i old hold, Grouping.join, AList.lookup_insert_eq]
    split
    . next hx =>
      subst hx
      rw [h.lookup_eq_none hother, Option.some.injEq]
      simp [eq_comm]
    . next hx => simp [hx]
  . intro x i hx
    rw [Grouping.join, List.length_modify]
    rw [Grouping.join, AList.lookup_insert_eq] at hx
    split at hx
    . rw [← Option.some.inj hx]
      exact hid
    . exact h.lookup_lt x i hx
  . intro x
    rw [Grouping.join, Finset.mem_insert, AList.mem_insert, h.visited]

section phase1

variable {s : Tracker}

theorem joinIfShares_cases (threadName : ThreadName) (lockSet : USet Addr) (groupId : Nat)
    (g : Grouping) (other : Sigma fun _ : ThreadName => USet Addr) :
    joinIfShares threadName lockSet groupId g other = g ∨
      (other.1 ∉ g.visited ∧ joinIfShares threadName lockSet groupId g other = g.join groupId other.1) := by
  unfold joinIfShares
  split
  . exact .inl rfl
  . next h =>
    split
    . exact .inr ⟨fun hvis => h (.inr hvis), rfl⟩
    . exact .inl rfl

theorem Partition.addHolder (h : g.Partition)
    (entry : Sigma fun _ : ThreadName => USet Addr) : (g.addHolder s.threadLocks entry).Partition := by
  by_cases ht : entry.1 ∈ g.visited
  . rw [Grouping.addHolder, if_pos ht]
    exact h
  . have hcreate := h.create ht
    rw [Grouping.addHolder, if_neg ht]
    rw [getOrCreateGroup_of_notMem h ht] at hcreate ⊢
    refine (Run.foldl_invariant
      (I := fun g' : Grouping => g'.Partition ∧ g.groups.length < g'.groups.length) ?_
      ⟨hcreate, by simp [visit]⟩ s.threadLocks.entries).1
    rintro g' other ⟨hp, hlt⟩
    rcases joinIfShares_cases entry.1 entry.2 g.groups.length g' other with heq | ⟨hother, heq⟩
    . rw [heq]
      exact ⟨hp, hlt⟩
    . rw [heq]
      refine ⟨hp.join hother hlt, ?_⟩
      rwa [Grouping.join, List.length_modify]

theorem Partition.addWaiter (h : g.Partition) (t : ThreadName) : (g.addWaiter t).Partition := by
  unfold Grouping.addWaiter
  split
  . next ht => exact h.create ht
  . exact h

theorem partition_foldl_addHolder (l : List (Sigma fun _ : ThreadName => USet Addr)) :
    (l.foldl (Grouping.addHolder s.threadLocks) empty).Partition :=
  Run.foldl_invariant (fun _ entry h => h.addHolder entry) partition_empty l

theorem partition_groupThreads : (groupThreads s).Partition :=
  Run.foldl_invariant (fun _ t h => h.addWaiter t) (partition_foldl_addHolder _) _

theorem mem_visited_addWaiter {x : ThreadName} (h : g.Partition) :
    x ∈ (g.addWaiter t).visited ↔ x = t ∨ x ∈ g.visited := by
  unfold Grouping.addWaiter
  split
  . next ht => simp [getOrCreateGroup_of_notMem h ht, visit]
  . next ht =>
    rw [not_not] at ht
    constructor
    . exact .inr
    . rintro (rfl | hx)
      . exact ht
      . exact hx

theorem mem_visited_groupThreads :
    t ∈ (groupThreads s).visited
      ↔
    t ∈ (s.threadLocks.entries.foldl (Grouping.addHolder s.threadLocks) empty).visited ∨ t ∈ s.waitsFor := by
  refine (Run.foldl_iff_exists (I := Partition) (C := fun g : Grouping => t ∈ g.visited) (P := (t = ·))
    (fun g x h => h.addWaiter x) ?_ (partition_foldl_addHolder _) _).trans (or_congr_right ?_)
  . intro g x h
    rw [mem_visited_addWaiter h, or_comm]
  . rw [exists_eq_right', AList.mem_keys]

end phase1

section bare

theorem exists_of_mem_modify {groups : List ConflictGroup} {i : Nat} {upd : ConflictGroup → ConflictGroup}
    {group : ConflictGroup} (h : group ∈ groups.modify i upd) :
    ∃ old ∈ groups, group = old ∨ group = upd old := by
  obtain ⟨j, hj⟩ := List.getElem?_of_mem h
  rw [List.getElem?_modify] at hj
  obtain ⟨old, hold, heq⟩ := Option.map_eq_some_iff.mp hj
  refine ⟨old, List.mem_of_getElem? hold, ?_⟩
  rw [← heq]
  split
  . exact .inr rfl
  . exact .inl rfl

structure Bare (group : ConflictGroup) : Prop where
  nonempty : ∃ t, t ∈ group.threads
  locksHeld : group.locksHeld = ∅
  locksWanted : group.locksWanted = ∅
  conflictingGroups : group.conflictingGroups = ∅

def AllBare (g : Grouping) : Prop := ∀ group ∈ g.groups, Bare group

theorem AllBare.getOrCreateGroup (h : g.AllBare) (t : ThreadName) : (g.getOrCreateGroup t).2.AllBare := by
  unfold Grouping.getOrCreateGroup
  split
  . exact h
  . intro group hgroup
    rcases List.mem_append.mp hgroup with hgroup | hgroup
    . exact h group hgroup
    . rw [List.mem_singleton.mp hgroup]
      exact ⟨⟨t, USet.mem_insert.mpr (.inl rfl)⟩, rfl, rfl, rfl⟩

theorem AllBare.join (h : g.AllBare) (i : Nat) (t : ThreadName) : (g.join i t).AllBare := by
  intro group hgroup
  obtain ⟨old, hold, rfl | rfl⟩ := exists_of_mem_modify hgroup
  . exact h group hold
  . have hbare := h old hold
    exact ⟨⟨t, USet.mem_insert.mpr (.inl rfl)⟩, hbare.locksHeld, hbare.locksWanted, hbare.conflictingGroups⟩

theorem AllBare.addWaiter (h : g.AllBare) (t : ThreadName) : (g.addWaiter t).AllBare := by
  unfold Grouping.addWaiter
  split
  . exact h.getOrCreateGroup t
  . exact h

theorem AllBare.addHolder (h : g.AllBare) (threadLocks : UMap ThreadName (USet Addr))
    (entry : Sigma fun _ : ThreadName => USet Addr) : (g.addHolder threadLocks entry).AllBare := by
  unfold Grouping.addHolder
  split
  . exact h
  . have hnew := h.getOrCreateGroup entry.1
    cases hg : g.getOrCreateGroup entry.1 with
    | mk groupId g1 =>
      rw [hg] at hnew
      have hvisit : (g1.visit entry.1).AllBare := hnew
      refine Run.foldl_invariant ?_ hvisit _
      intro g' other h'
      rcases joinIfShares_cases entry.1 entry.2 groupId g' other with heq | ⟨-, heq⟩
      . rwa [heq]
      . rw [heq]
        exact h'.join groupId other.1

theorem allBare_groupThreads (s : Tracker) : (groupThreads s).AllBare := by
  have hempty : empty.AllBare := by simp [AllBare, empty]
  have hholders := Run.foldl_invariant
    (fun g entry (h : AllBare g) => h.addHolder s.threadLocks entry) hempty s.threadLocks.entries
  exact Run.foldl_invariant (fun g t (h : AllBare g) => h.addWaiter t) hholders s.waitsFor.keys

end bare

end Grouping

section phases

def ConflictGroup.core (group : ConflictGroup) : Nat × USet ThreadName := (group.groupId, group.threads)

theorem map_modify {β : Type} {f : ConflictGroup → β} {upd : ConflictGroup → ConflictGroup}
    (hf : ∀ group, f (upd group) = f group) (groups : List ConflictGroup) (i : Nat) :
    (groups.modify i upd).map f = groups.map f := by
  apply List.ext_getElem?
  intro j
  rw [List.getElem?_map, List.getElem?_map, List.getElem?_modify]
  cases groups[j]? with
  | none => rfl
  | some group =>
    simp only [Option.map_eq_map, Option.map_some, Option.some.injEq]
    split
    . exact hf group
    . rfl

theorem map_link {β : Type} {f : ConflictGroup → β}
    (hf : ∀ group conflicts, f { group with conflictingGroups := conflicts } = f group)
    (groups : List ConflictGroup) (i j : Nat) : (linkConflicts.link i groups j).map f = groups.map f := by
  unfold linkConflicts.link
  split
  . split
    . rw [map_modify, map_modify]
      . exact fun group => hf group _
      . exact fun group => hf group _
    . rfl
  . rfl

theorem map_linkConflicts {β : Type} (f : ConflictGroup → β)
    (hf : ∀ group conflicts, f { group with conflictingGroups := conflicts } = f group)
    (groups : List ConflictGroup) : (linkConflicts groups).map f = groups.map f := by
  refine Run.foldl_invariant (I := fun l : List ConflictGroup => l.map f = groups.map f) ?_ rfl _
  intro l i hl
  refine Run.foldl_invariant (I := fun l : List ConflictGroup => l.map f = groups.map f) ?_ hl _
  intro l' j hl'
  rw [map_link hf, hl']

theorem map_core_analyze (s : Tracker) :
    (analyzeConflictGroups s).map ConflictGroup.core
      =
    (groupThreads s).groups.map ConflictGroup.core := by
  rw [analyzeConflictGroups, map_linkConflicts ConflictGroup.core fun _ _ => rfl, List.map_map]
  rfl

theorem exists_bare_of_mem {s : Tracker} {group : ConflictGroup} (h : group ∈ analyzeConflictGroups s) :
    ∃ bare, Grouping.Bare bare ∧ group.threads = bare.threads ∧
      group.locksHeld = (populate s bare).locksHeld ∧ group.locksWanted = (populate s bare).locksWanted := by
  let data : ConflictGroup → USet ThreadName × USet Addr × USet Addr :=
    fun group => (group.threads, group.locksHeld, group.locksWanted)
  have hmap : (analyzeConflictGroups s).map data = ((groupThreads s).groups.map (populate s)).map data :=
    map_linkConflicts data (fun _ _ => rfl) _
  have hmem := List.mem_map_of_mem (f := data) h
  rw [hmap, List.map_map] at hmem
  obtain ⟨bare, hbare, heq⟩ := List.mem_map.mp hmem
  obtain ⟨hthreads, hlocks⟩ := Prod.mk.inj heq
  obtain ⟨hheld, hwanted⟩ := Prod.mk.inj hlocks
  exact ⟨bare, Grouping.allBare_groupThreads s bare hbare, hthreads.symm, hheld.symm, hwanted.symm⟩

end phases

section findGroup

theorem findGroup_of_core {groups groups' : List ConflictGroup}
    (h : groups.map ConflictGroup.core = groups'.map ConflictGroup.core) (t : ThreadName) :
    findGroup groups t = findGroup groups' t := by
  have hcore : ∀ l : List ConflictGroup,
      findGroup l t = ((l.map ConflictGroup.core).find? fun c => t ∈ c.2).map Prod.fst := by
    intro l
    rw [findGroup, List.find?_map, Option.map_map]
    rfl
  rw [hcore, hcore, h]

theorem findGroup_analyze (s : Tracker) (t : ThreadName) :
    findGroup (analyzeConflictGroups s) t = (groupThreads s).threadToGroup.lookup t := by
  have hp := Grouping.partition_groupThreads (s := s)
  rw [findGroup_of_core (map_core_analyze s)]
  cases hlook : (groupThreads s).threadToGroup.lookup t with
  | none =>
    rw [findGroup, Option.map_eq_none_iff, List.find?_eq_none]
    intro group hgroup
    obtain ⟨i, hi⟩ := List.getElem?_of_mem hgroup
    rw [decide_eq_true_eq, hp.mem_threads i group hi, hlook]
    simp
  | some i =>
    have hlt := hp.lookup_lt t i hlook
    have hmem : t ∈ ((groupThreads s).groups[i]).threads := by
      rw [hp.mem_threads i _ (List.getElem?_eq_getElem hlt), hlook]
    have hsome : ((groupThreads s).groups.find? fun group => t ∈ group.threads).isSome := by
      rw [List.find?_isSome]
      exact ⟨_, List.getElem_mem hlt, by simpa using hmem⟩
    obtain ⟨group, hfind⟩ := Option.isSome_iff_exists.mp hsome
    obtain ⟨j, hj⟩ := List.getElem?_of_mem (List.mem_of_find?_eq_some hfind)
    have hin : t ∈ group.threads := by simpa using List.find?_some hfind
    rw [hp.mem_threads j group hj, hlook, Option.some.injEq] at hin
    rw [findGroup, hfind, Option.map_some, hp.groupId j group hj, hin]

variable {s : Tracker} {t : ThreadName}

theorem findGroup_eq_some_iff {i : Nat} :
    findGroup (analyzeConflictGroups s) t = some i
      ↔
    ∃ group ∈ analyzeConflictGroups s, group.groupId = i ∧ t ∈ group.threads := by
  have hp := Grouping.partition_groupThreads (s := s)
  constructor
  . intro h
    obtain ⟨group, hfind, hid⟩ := Option.map_eq_some_iff.mp h
    exact ⟨group, List.mem_of_find?_eq_some hfind, hid, by simpa using List.find?_some hfind⟩
  . rintro ⟨group, hgroup, rfl, ht⟩
    have hcore : group.core ∈ (groupThreads s).groups.map ConflictGroup.core := by
      rw [← map_core_analyze]
      exact List.mem_map_of_mem hgroup
    obtain ⟨group', hgroup', heq⟩ := List.mem_map.mp hcore
    obtain ⟨hid, hthreads⟩ := Prod.mk.inj heq
    obtain ⟨j, hj⟩ := List.getElem?_of_mem hgroup'
    rw [findGroup_analyze, ← hid, hp.groupId j group' hj, ← hp.mem_threads j group' hj, hthreads]
    exact ht

theorem exists_findGroup_of_mem_waitsFor (ht : t ∈ s.waitsFor) :
    ∃ i, findGroup (analyzeConflictGroups s) t = some i := by
  rw [findGroup_analyze]
  apply AList.lookup_of_mem
  rw [← Grouping.partition_groupThreads.visited]
  exact Grouping.mem_visited_groupThreads.mpr (.inr ht)

end findGroup

end DeadlockInterceptor
