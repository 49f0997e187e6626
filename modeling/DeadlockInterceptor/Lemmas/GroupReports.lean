import DeadlockInterceptor.Lemmas.HolderGroups
import DeadlockInterceptor.Lemmas.CombinedDetector
import DeadlockInterceptor.Lemmas.MonitoringFlag
import DeadlockInterceptor.Lemmas.Ownership

/-!
This module contains what the report of a deadlock of groups says about the threads: which locks are in it,
and when there is a deadlock of threads behind it.
-/

open Relation DirectedGraph

namespace DeadlockInterceptor

section locks

variable {s : Tracker}

theorem mem_locksHeld_analyze {group : ConflictGroup} (h : group ∈ analyzeConflictGroups s) {a : Addr} :
    a ∈ group.locksHeld ↔ ∃ t ∈ group.threads, s.Held t a := by
  obtain ⟨bare, hbare, hthreads, hheld, -⟩ := exists_bare_of_mem h
  rw [hthreads, hheld]
  simp only [populate, hbare.locksHeld, USet.mem_insertAll, USet.notMem_empty, false_or, List.mem_flatMap,
    USet.mem_toList]
  rfl

theorem mem_locksWanted_analyze {group : ConflictGroup} (h : group ∈ analyzeConflictGroups s) {a : Addr} :
    a ∈ group.locksWanted ↔ ∃ t ∈ group.threads, ∃ u, s.Waits t u ∧ s.owner a = some u := by
  obtain ⟨bare, hbare, hthreads, -, hwanted⟩ := exists_bare_of_mem h
  rw [hthreads, hwanted]
  simp only [populate, hbare.locksWanted, USet.mem_insertAll, USet.notMem_empty, false_or, List.mem_flatMap,
    USet.mem_toList]
  apply exists_congr
  intro t
  apply and_congr_right
  intro _
  apply exists_congr
  intro u
  apply and_congr_right
  intro _
  rw [Tracker.owner, ← Option.mem_def, AList.mem_lookup_iff, List.mem_map]
  constructor
  . rintro ⟨entry, hentry, rfl⟩
    obtain ⟨hentry, howner⟩ := List.mem_filter.mp hentry
    rw [← of_decide_eq_true howner]
    exact hentry
  . intro hentry
    exact ⟨⟨a, u⟩, List.mem_filter.mpr ⟨hentry, decide_eq_true rfl⟩, rfl⟩

end locks

section report

variable {s : Tracker} {ho : HashOrders}

theorem exists_group_iff {i : Nat} {p : ConflictGroup → Prop} :
    (∃ group, (analyzeConflictGroups s)[i]? = some group ∧ p group)
      ↔
    ∃ group ∈ analyzeConflictGroups s, group.groupId = i ∧ p group := by
  constructor
  . rintro ⟨group, hgroup, hp⟩
    exact ⟨group, List.mem_of_getElem? hgroup, analyze_groupId hgroup, hp⟩
  . rintro ⟨group, hgroup, rfl, hp⟩
    obtain ⟨j, hj⟩ := List.getElem?_of_mem hgroup
    refine ⟨group, ?_, hp⟩
    rwa [analyze_groupId hj]

theorem exists_held_iff {i : Nat} {a : Addr} :
    (∃ group, (analyzeConflictGroups s)[i]? = some group ∧ a ∈ group.locksHeld)
      ↔
    ∃ t, findGroup (analyzeConflictGroups s) t = some i ∧ s.Held t a := by
  rw [exists_group_iff]
  constructor
  . rintro ⟨group, hgroup, hid, ha⟩
    obtain ⟨t, ht, hheld⟩ := (mem_locksHeld_analyze hgroup).mp ha
    exact ⟨t, findGroup_eq_some_iff.mpr ⟨group, hgroup, hid, ht⟩, hheld⟩
  . rintro ⟨t, hfind, hheld⟩
    obtain ⟨group, hgroup, hid, ht⟩ := findGroup_eq_some_iff.mp hfind
    exact ⟨group, hgroup, hid, (mem_locksHeld_analyze hgroup).mpr ⟨t, ht, hheld⟩⟩

namespace detectGroupDeadlock

theorem exists_of_resolutions_cons {threadCycle : List ThreadName} {groups : List ConflictGroup} {i : Nat}
    {groupCycle : List Nat} {l : List GroupResolution} {group : ConflictGroup} (hgroup : groups[i]? = some group)
    (h : resolutions ho threadCycle groups (i :: groupCycle) = .ok l) :
    ∃ victimTid rest, resolutions ho threadCycle groups groupCycle = .ok rest ∧
      l = ⟨i, group.threads, group.locksHeld, group.locksWanted, group.conflictingGroups,
        (selectVictim ho threadCycle group).getD [], victimTid⟩ :: rest := by
  simp only [resolutions, hgroup] at h
  cases htid : (selectVictim ho threadCycle group).elim (.ok 0) extractTidFromIdentifier with
  | error e =>
    rw [htid] at h
    cases h
  | ok tid =>
    cases hrest : resolutions ho threadCycle groups groupCycle with
    | error e =>
      rw [htid, hrest] at h
      cases h
    | ok rest =>
      rw [htid, hrest] at h
      exact ⟨tid, rest, rfl, (Except.ok.inj h).symm⟩

theorem mem_heldLocks_resolutions {threadCycle : List ThreadName} {groups : List ConflictGroup}
    {groupCycle : List Nat} {l : List GroupResolution} (h : resolutions ho threadCycle groups groupCycle = .ok l)
    {a : Addr} :
    (∃ res ∈ l, a ∈ res.heldLocks)
      ↔
    ∃ i ∈ groupCycle, ∃ group, groups[i]? = some group ∧ a ∈ group.locksHeld := by
  induction groupCycle generalizing l with
  | nil =>
    simp only [resolutions, Except.ok.injEq] at h
    simp [← h]
  | cons i groupCycle ih =>
    cases hgroup : groups[i]? with
    | none =>
      simp only [resolutions, hgroup] at h
      rw [ih h]
      simp [hgroup]
    | some group =>
      obtain ⟨tid, rest, hrest, rfl⟩ := exists_of_resolutions_cons hgroup h
      simp only [List.mem_cons, exists_eq_or_imp, ih hrest, hgroup, Option.some.injEq, exists_eq_left']

theorem selectVictim_mem {threadCycle : List ThreadName} {group : ConflictGroup} {t : ThreadName}
    (h : selectVictim ho threadCycle group = some t) : t ∈ group.threads := by
  have hany : ∀ t, selectVictim.any ho group = some t → t ∈ group.threads := by
    intro t ht
    have hmem := List.mem_of_head? ht
    simpa using hmem
  unfold selectVictim at h
  split at h
  . next thread hfind =>
    split at h
    . exact hany t h
    . obtain rfl := Option.some.inj h
      simpa using List.find?_some hfind
  . exact hany t h

theorem resolutions_of_parses (ho : HashOrders) (threadCycle : List ThreadName) {groups : List ConflictGroup}
    (hparses : ∀ group ∈ groups, ∀ t ∈ group.threads, Parses t) (groupCycle : List Nat) :
    ∃ l, resolutions ho threadCycle groups groupCycle = .ok l := by
  induction groupCycle with
  | nil => exact ⟨[], rfl⟩
  | cons i groupCycle ih =>
    obtain ⟨rest, hrest⟩ := ih
    unfold resolutions
    split
    . exact ⟨rest, hrest⟩
    . next group hgroup =>
      have htid : ∃ tid, (selectVictim ho threadCycle group).elim (.ok 0) extractTidFromIdentifier
          = .ok tid := by
        cases hvictim : selectVictim ho threadCycle group with
        | none => exact ⟨0, rfl⟩
        | some t => exact hparses group (List.mem_of_getElem? hgroup) t (selectVictim_mem hvictim)
      obtain ⟨tid, htid⟩ := htid
      simp only [htid, hrest]
      exact ⟨_, rfl⟩

end detectGroupDeadlock

theorem mem_involvedLocks {groups : List ConflictGroup} {groupCycle : List Nat} {a : Addr} :
    a ∈ USet.insertAll ∅ (groupCycle.flatMap fun groupId =>
      match groups[groupId]? with
      | some group => group.locksHeld.toList ++ group.locksWanted.toList
      | none => [])
      ↔
    ∃ i ∈ groupCycle, ∃ group, groups[i]? = some group ∧ (a ∈ group.locksHeld ∨ a ∈ group.locksWanted) := by
  simp only [USet.mem_insertAll, USet.notMem_empty, false_or, List.mem_flatMap]
  apply exists_congr
  intro i
  apply and_congr_right
  intro _
  cases groups[i]? with
  | none => simp
  | some group => simp

theorem eq_of_detectGroupDeadlock {info : GroupDeadlockInfo} (h : detectGroupDeadlock ho s = .ok info) :
    info = {} ∨
    (¬(findGroupCycles ho s).length < 2 ∧ ∃ locks l,
      (∀ a, a ∈ locks ↔ ∃ i ∈ findGroupCycles ho s, ∃ group,
        (analyzeConflictGroups s)[i]? = some group ∧ (a ∈ group.locksHeld ∨ a ∈ group.locksWanted)) ∧
      detectGroupDeadlock.resolutions ho (expandGroupCycleToThreads ho s (findGroupCycles ho s))
        (analyzeConflictGroups s) (findGroupCycles ho s) = .ok l ∧
      info = ⟨findGroupCycles ho s, expandGroupCycleToThreads ho s (findGroupCycles ho s), locks, l⟩) := by
  unfold detectGroupDeadlock at h
  simp only at h
  split at h
  . exact .inl (Except.ok.inj h).symm
  . next hlength =>
    cases hres : detectGroupDeadlock.resolutions ho (expandGroupCycleToThreads ho s (findGroupCycles ho s))
        (analyzeConflictGroups s) (findGroupCycles ho s) with
    | error e =>
      rw [hres] at h
      cases h
    | ok l =>
      rw [hres] at h
      refine .inr ⟨hlength, _, l, ?_, rfl, (Except.ok.inj h).symm⟩
      intro a
      rw [HashOrder.mem_order, USet.mem_toList]
      exact mem_involvedLocks

/--
The report is made of the cycle of groups that has been found, and the locks that are written are the locks
of the threads of its groups.
-/
theorem detectGroupDeadlock_spec {info : GroupDeadlockInfo} (h : detectGroupDeadlock ho s = .ok info)
    (hlength : 2 ≤ info.groupCycle.length) :
    IsCycle (GroupWaits s) info.groupCycle ∧
    ∀ a, a ∈ info.allLocks ho ↔
      ∃ i ∈ info.groupCycle, ∃ t, findGroup (analyzeConflictGroups s) t = some i ∧ s.Held t a := by
  rcases eq_of_detectGroupDeadlock h with rfl | ⟨hfound, locks, l, -, hres, rfl⟩
  . simp at hlength
  . constructor
    . apply (findGroupCycles_spec.1 _).1
      rintro hnil
      simp [hnil] at hfound
    . intro a
      simp only [GroupDeadlockInfo.allLocks, HashOrder.mem_order, USet.mem_toList, USet.mem_insertAll,
        USet.notMem_empty, false_or, List.mem_flatMap]
      rw [detectGroupDeadlock.mem_heldLocks_resolutions hres]
      simp only [exists_held_iff]

theorem exists_report (hparses : ∀ group ∈ analyzeConflictGroups s, ∀ t ∈ group.threads, Parses t)
    (hcyc : ∃ i, TransGen (GroupWaits s) i i) (ho : HashOrders) :
    ∃ info, detectGroupDeadlock ho s = .ok info ∧ 2 ≤ info.groupCycle.length := by
  rcases detectGroupDeadlock_cases ho s with ⟨hno, -⟩ | ⟨-, ⟨e, herr⟩ | hreport⟩
  . obtain ⟨i, hi⟩ := hcyc
    exact absurd (ReachesCycle.exists_isCycle ⟨i, .refl, hi⟩) hno
  . exfalso
    obtain ⟨l, hl⟩ := detectGroupDeadlock.resolutions_of_parses ho
      (expandGroupCycleToThreads ho s (findGroupCycles ho s)) hparses (findGroupCycles ho s)
    unfold detectGroupDeadlock at herr
    simp only at herr
    split at herr
    . cases herr
    . rw [hl] at herr
      cases herr
  . exact hreport

end report

end DeadlockInterceptor
