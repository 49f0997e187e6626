import DeadlockInterceptor.Lemmas.GroupReports

/-!
This module contains that `analyze_conflict_groups` returns a partition of the threads with the exact locks
of every group and the exact conflicts between them, whatever the order of the containers is.
-/

namespace DeadlockInterceptor

section conflicts

def ConflictGroup.Meets (group other : ConflictGroup) : Prop :=
  (∃ a ∈ group.locksHeld, a ∈ other.locksWanted) ∨ ∃ a ∈ group.locksWanted, a ∈ other.locksHeld

theorem ConflictGroup.Meets.symm {group other : ConflictGroup} (h : group.Meets other) :
    other.Meets group := by
  rcases h with ⟨a, ha, ha'⟩ | ⟨a, ha, ha'⟩
  . exact .inr ⟨a, ha', ha⟩
  . exact .inl ⟨a, ha', ha⟩

theorem ConflictGroup.conflictsWith_iff (group other : ConflictGroup) :
    group.conflictsWith other = true ↔ group.Meets other := by
  simp only [conflictsWith, Meets, Bool.or_eq_true, List.any_eq_true, USet.mem_toList, decide_eq_true_eq]

def LocksConflict (groups : List ConflictGroup) (i j : Nat) : Prop :=
  ∃ group other, groups[i]? = some group ∧ groups[j]? = some other ∧ group.Meets other

def ListsConflict (groups : List ConflictGroup) (i j : Nat) : Prop :=
  ∃ group, groups[i]? = some group ∧ j ∈ group.conflictingGroups

variable {groups groups' : List ConflictGroup} {i j k m : Nat}

theorem LocksConflict.symm (h : LocksConflict groups i j) : LocksConflict groups j i := by
  obtain ⟨group, other, hi, hj, hmeets⟩ := h
  exact ⟨other, group, hj, hi, hmeets.symm⟩

theorem LocksConflict.lt (h : LocksConflict groups i j) : i < groups.length := by
  obtain ⟨group, -, hi, -, -⟩ := h
  exact (List.getElem?_eq_some_iff.mp hi).1

theorem LocksConflict.of_map_eq
    (heq : groups.map (fun group => (group.locksHeld, group.locksWanted))
      = groups'.map fun group => (group.locksHeld, group.locksWanted))
    (h : LocksConflict groups i j) : LocksConflict groups' i j := by
  have hsame : ∀ (n : Nat) (group : ConflictGroup), groups[n]? = some group → ∃ group',
      groups'[n]? = some group' ∧ group'.locksHeld = group.locksHeld ∧
        group'.locksWanted = group.locksWanted := by
    intro n group hn
    have hmap : (groups.map fun group => (group.locksHeld, group.locksWanted))[n]?
        = some (group.locksHeld, group.locksWanted) := by
      rw [List.getElem?_map, hn]
      rfl
    rw [heq, List.getElem?_map] at hmap
    obtain ⟨group', hn', hlocks⟩ := Option.map_eq_some_iff.mp hmap
    exact ⟨group', hn', Prod.mk.inj hlocks⟩
  obtain ⟨group, other, hi, hj, hmeets⟩ := h
  obtain ⟨group', hi', hheld, hwanted⟩ := hsame i group hi
  obtain ⟨other', hj', hheld', hwanted'⟩ := hsame j other hj
  refine ⟨group', other', hi', hj', ?_⟩
  rwa [ConflictGroup.Meets, hheld, hwanted, hheld', hwanted']

theorem locksConflict_link (groups : List ConflictGroup) (i j k m : Nat) :
    LocksConflict (linkConflicts.link i groups j) k m ↔ LocksConflict groups k m := by
  have hmap := map_link (f := fun group => (group.locksHeld, group.locksWanted)) (fun _ _ => rfl) groups i j
  exact ⟨.of_map_eq hmap, .of_map_eq hmap.symm⟩

theorem locksConflict_linkConflicts (groups : List ConflictGroup) (i j : Nat) :
    LocksConflict (linkConflicts groups) i j ↔ LocksConflict groups i j := by
  have hmap := map_linkConflicts (fun group => (group.locksHeld, group.locksWanted)) (fun _ _ => rfl) groups
  exact ⟨.of_map_eq hmap, .of_map_eq hmap.symm⟩

theorem listsConflict_modify (hi : i < groups.length) :
    ListsConflict (groups.modify i fun g => { g with conflictingGroups := g.conflictingGroups.insert j }) k m
      ↔
    ListsConflict groups k m ∨ (k = i ∧ m = j) := by
  by_cases hk : k = i
  . subst hk
    simp only [ListsConflict, List.getElem?_modify_eq, List.getElem?_eq_getElem hi, Option.map_eq_map,
      Option.map_some, Option.some.injEq, exists_eq_left', USet.mem_insert, true_and]
    rw [or_comm]
  . simp only [ListsConflict, List.getElem?_modify_ne _ _ (Ne.symm hk), hk, false_and, or_false]

theorem listsConflict_link (groups : List ConflictGroup) (i j k m : Nat) :
    ListsConflict (linkConflicts.link i groups j) k m
      ↔
    ListsConflict groups k m ∨ (LocksConflict groups i j ∧ ((k = i ∧ m = j) ∨ (k = j ∧ m = i))) := by
  unfold linkConflicts.link
  split
  . next group other hi hj =>
    have hmeets : LocksConflict groups i j ↔ group.Meets other := by
      simp [LocksConflict, hi, hj]
    rw [hmeets, ← ConflictGroup.conflictsWith_iff]
    split
    . next hconflict =>
      rw [listsConflict_modify, listsConflict_modify, or_assoc]
      . simp [hconflict]
      . exact (List.getElem?_eq_some_iff.mp hi).1
      . rw [List.length_modify]
        exact (List.getElem?_eq_some_iff.mp hj).1
    . next hconflict => simp [hconflict]
  . next hnone =>
    have hno : ¬LocksConflict groups i j := by
      rintro ⟨group, other, hi, hj, -⟩
      exact hnone group other hi hj
    simp [hno]

theorem length_link (groups : List ConflictGroup) (i j : Nat) :
    (linkConflicts.link i groups j).length = groups.length := by
  have hmap := congrArg List.length (map_link (f := ConflictGroup.groupId) (fun _ _ => rfl) groups i j)
  rwa [List.length_map, List.length_map] at hmap

theorem listsConflict_linkConflicts (groups : List ConflictGroup) (k m : Nat) :
    ListsConflict (linkConflicts groups) k m
      ↔
    ListsConflict groups k m ∨ (k ≠ m ∧ LocksConflict groups k m) := by
  let same (l : List ConflictGroup) : Prop :=
    l.length = groups.length ∧ ∀ i j, LocksConflict l i j ↔ LocksConflict groups i j
  have hlink : ∀ i l j, same l → same (linkConflicts.link i l j) := by
    rintro i l j ⟨hlength, hlocks⟩
    constructor
    . rw [length_link, hlength]
    . intro i' j'
      rw [locksConflict_link, hlocks]
  refine (Run.foldl_iff_exists (I := same) (C := fun l => ListsConflict l k m)
    (P := fun i => ∃ j ∈ (List.range groups.length).filter (i < ·),
      LocksConflict groups i j ∧ ((k = i ∧ m = j) ∨ (k = j ∧ m = i))) ?_ ?_ ?_ _).trans ?_
  . exact fun l i h => Run.foldl_invariant (hlink i) h _
  . intro l i h
    rw [h.1]
    apply Run.foldl_iff_exists (I := same) (C := fun l => ListsConflict l k m) (hlink i)
    . intro l' j h'
      rw [listsConflict_link, h'.2]
    . exact h
  . exact ⟨rfl, fun _ _ => .rfl⟩
  . apply or_congr_right
    simp only [List.mem_filter, List.mem_range, decide_eq_true_eq]
    constructor
    . rintro ⟨i, -, j, ⟨-, hij⟩, hconflict, ⟨rfl, rfl⟩ | ⟨rfl, rfl⟩⟩
      . exact ⟨Nat.ne_of_lt hij, hconflict⟩
      . exact ⟨Nat.ne_of_gt hij, hconflict.symm⟩
    . rintro ⟨hne, hconflict⟩
      rcases Nat.lt_or_gt_of_ne hne with hlt | hgt
      . exact ⟨k, hconflict.lt, m, ⟨hconflict.symm.lt, hlt⟩, hconflict, .inl ⟨rfl, rfl⟩⟩
      . exact ⟨m, hconflict.symm.lt, k, ⟨hconflict.lt, hgt⟩, hconflict.symm, .inr ⟨rfl, rfl⟩⟩

end conflicts

variable {s : Tracker}

theorem listsConflict_analyze (i j : Nat) :
    ListsConflict (analyzeConflictGroups s) i j ↔ i ≠ j ∧ LocksConflict (analyzeConflictGroups s) i j := by
  have hbare : ¬ListsConflict ((groupThreads s).groups.map (populate s)) i j := by
    rintro ⟨group, hgroup, hmem⟩
    obtain ⟨bare, hbare, rfl⟩ := List.mem_map.mp (List.mem_of_getElem? hgroup)
    rw [populate, (Grouping.allBare_groupThreads s bare hbare).conflictingGroups] at hmem
    exact USet.notMem_empty j hmem
  rw [analyzeConflictGroups, listsConflict_linkConflicts, locksConflict_linkConflicts]
  exact or_iff_right hbare

theorem eq_of_mem_threads {i j : Nat} {group other : ConflictGroup} {t : ThreadName}
    (hi : (analyzeConflictGroups s)[i]? = some group) (hj : (analyzeConflictGroups s)[j]? = some other)
    (ht : t ∈ group.threads) (ht' : t ∈ other.threads) : i = j := by
  have hfind := findGroup_eq_some_iff.mpr ⟨group, List.mem_of_getElem? hi, analyze_groupId hi, ht⟩
  have hfind' := findGroup_eq_some_iff.mpr ⟨other, List.mem_of_getElem? hj, analyze_groupId hj, ht'⟩
  rw [hfind] at hfind'
  exact Option.some.inj hfind'

theorem exists_mem_threads_iff {t : ThreadName} :
    (∃ group ∈ analyzeConflictGroups s, t ∈ group.threads) ↔ t ∈ s.threadLocks ∨ t ∈ s.waitsFor := by
  rw [← Grouping.exists_lookup_iff]
  simp only [← findGroup_analyze, findGroup_eq_some_iff]
  constructor
  . rintro ⟨group, hgroup, ht⟩
    exact ⟨group.groupId, group, hgroup, rfl, ht⟩
  . rintro ⟨-, group, hgroup, -, ht⟩
    exact ⟨group, hgroup, ht⟩

/--
The vector is a partition of the threads that hold locks or wait, and every group of it has the locks of its
threads and the conflicts of its locks.
-/
structure ExactGroups (s : Tracker) (groups : List ConflictGroup) : Prop where
  groupId : ∀ (i : Nat) (group : ConflictGroup), groups[i]? = some group → group.groupId = i
  nonempty : ∀ group ∈ groups, ∃ t, t ∈ group.threads
  disjoint : ∀ (i j : Nat) (group other : ConflictGroup), groups[i]? = some group → groups[j]? = some other →
    ∀ t, t ∈ group.threads → t ∈ other.threads → i = j
  union : ∀ t, (∃ group ∈ groups, t ∈ group.threads) ↔ t ∈ s.threadLocks ∨ t ∈ s.waitsFor
  locksHeld : ∀ group ∈ groups, ∀ a, a ∈ group.locksHeld ↔ ∃ t ∈ group.threads, s.Held t a
  locksWanted : ∀ group ∈ groups, ∀ a,
    a ∈ group.locksWanted ↔ ∃ t ∈ group.threads, ∃ u, s.Waits t u ∧ s.owner a = some u
  conflictingGroups : ∀ i j, ListsConflict groups i j ↔ i ≠ j ∧ LocksConflict groups i j
  symm : ∀ i j, ListsConflict groups i j → ListsConflict groups j i
  irrefl : ∀ i, ¬ListsConflict groups i i

theorem analyzeConflictGroups_exact (s : Tracker) : ExactGroups s (analyzeConflictGroups s) where
  groupId i group hi := analyze_groupId hi
  nonempty group hgroup := by
    obtain ⟨bare, hbare, hthreads, -, -⟩ := exists_bare_of_mem hgroup
    rw [hthreads]
    exact hbare.nonempty
  disjoint i j group other hi hj t ht ht' := eq_of_mem_threads hi hj ht ht'
  union t := exists_mem_threads_iff
  locksHeld group hgroup a := mem_locksHeld_analyze hgroup
  locksWanted group hgroup a := mem_locksWanted_analyze hgroup
  conflictingGroups := listsConflict_analyze
  symm i j h := by
    rw [listsConflict_analyze] at h ⊢
    exact ⟨h.1.symm, h.2.symm⟩
  irrefl i h := by
    rw [listsConflict_analyze] at h
    exact h.1 rfl

end DeadlockInterceptor
