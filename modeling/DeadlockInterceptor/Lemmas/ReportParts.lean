import DeadlockInterceptor.Lemmas.ExpandCycle
import DeadlockInterceptor.Lemmas.GroupReports

/-!
This module contains how the parts of the report of a deadlock of groups fit together: the cycle of groups, the
cycle of threads, the resolutions and the locks.
-/

open Relation DirectedGraph

namespace DeadlockInterceptor

def ParsesText (threadName : ThreadName) : Prop := threadName ≠ [] ∧ Parses threadName

structure GroupResolution.IsFor (res : GroupResolution) (i : Nat) (group : ConflictGroup)
    (victim : ThreadName) : Prop where
  groupId : res.groupId = i
  threads : res.threads = group.threads
  heldLocks : res.heldLocks = group.locksHeld
  wantedLocks : res.wantedLocks = group.locksWanted
  selectedVictim : res.selectedVictim = victim

structure GroupDeadlockInfo.PartsFit (s : Tracker) (info : GroupDeadlockInfo) : Prop where
  length_threadCycle : info.threadCycle.length = info.groupCycle.length
  waitsInto : ∀ (i : Nat) (h : i < info.groupCycle.length), ∃ t, info.threadCycle[i]? = some t ∧
    WaitsInto s info.groupCycle[i] (succAt info.groupCycle i h) t
  length_resolutions : info.groupResolutions.length = info.groupCycle.length
  resolution : ∀ (i : Nat) (h : i < info.groupCycle.length), ∃ group res t,
    (analyzeConflictGroups s)[info.groupCycle[i]]? = some group ∧ info.groupResolutions[i]? = some res ∧
      info.threadCycle[i]? = some t ∧ res.IsFor info.groupCycle[i] group t
  nodup_locks : info.involvedLocks.Nodup
  mem_locks : ∀ a, a ∈ info.involvedLocks ↔ ∃ i ∈ info.groupCycle, ∃ group,
    (analyzeConflictGroups s)[i]? = some group ∧ (a ∈ group.locksHeld ∨ a ∈ group.locksWanted)

variable {ho : HashOrders} {s : Tracker} {groupCycle : List Nat}

namespace detectGroupDeadlock

theorem resolutions_spec {threadCycle : List ThreadName} {groups : List ConflictGroup} {l : List GroupResolution}
    (h : resolutions ho threadCycle groups groupCycle = .ok l) (hids : ∀ i ∈ groupCycle, i < groups.length) :
    l.length = groupCycle.length ∧
    ∀ (i : Nat) (hi : i < groupCycle.length), ∃ group res, groups[groupCycle[i]]? = some group ∧
      l[i]? = some res ∧ res.IsFor groupCycle[i] group ((selectVictim ho threadCycle group).getD []) := by
  induction groupCycle generalizing l with
  | nil =>
    simp only [resolutions, Except.ok.injEq] at h
    subst h
    constructor
    . rfl
    . intro i hi
      simp at hi
  | cons groupId groupCycle ih =>
    obtain ⟨group, hgroup⟩ : ∃ group, groups[groupId]? = some group :=
      ⟨_, List.getElem?_eq_getElem (hids groupId List.mem_cons_self)⟩
    obtain ⟨tid, rest, hrest, rfl⟩ := exists_of_resolutions_cons hgroup h
    obtain ⟨hlength, hspec⟩ := ih hrest fun i hi => hids i (List.mem_cons_of_mem groupId hi)
    constructor
    . rw [List.length_cons, List.length_cons, hlength]
    . intro i hi
      cases i with
      | zero => exact ⟨group, _, hgroup, rfl, rfl, rfl, rfl, rfl, rfl⟩
      | succ i => exact hspec i (Nat.lt_of_succ_lt_succ hi)

/--
The victim of a group is the thread of the cycle of threads that is in it, if no other thread of the cycle is.
-/
theorem selectVictim_of_only {threadCycle : List ThreadName} {group : ConflictGroup} {t : ThreadName}
    (hcycle : t ∈ threadCycle) (hgroup : t ∈ group.threads)
    (honly : ∀ u ∈ threadCycle, u ∈ group.threads → u = t) (hne : t ≠ []) :
    selectVictim ho threadCycle group = some t := by
  have hfind : threadCycle.find? (· ∈ group.threads) = some t := by
    cases hfind : threadCycle.find? (· ∈ group.threads) with
    | none =>
      have hnot := List.find?_eq_none.mp hfind t hcycle
      exact absurd (decide_eq_true hgroup) hnot
    | some u =>
      have hu : u ∈ group.threads := by simpa using List.find?_some hfind
      rw [honly u (List.mem_of_find?_eq_some hfind) hu]
  simp only [selectVictim, hfind, if_neg hne]

end detectGroupDeadlock

theorem eq_of_mem_threadCycle (hcycle : IsCycle (GroupWaits s) groupCycle) (hnodup : groupCycle.Nodup)
    {i : Nat} (hi : i < groupCycle.length) {t u : ThreadName}
    (ht : (expandGroupCycleToThreads ho s groupCycle)[i]? = some t)
    (hu : u ∈ expandGroupCycleToThreads ho s groupCycle) (hgroup : InGroup s groupCycle[i] u) : u = t := by
  obtain ⟨hlength, hspec⟩ := expandGroupCycleToThreads_spec ho hcycle
  obtain ⟨j, hj⟩ := List.getElem?_of_mem hu
  have hlt : j < groupCycle.length := by
    rw [← hlength]
    exact (List.getElem?_eq_some_iff.mp hj).1
  obtain ⟨u', hu', -, hwaits⟩ := hspec j hlt
  rw [hj, Option.some.injEq] at hu'
  subst hu'
  have hij : j = i := (List.Nodup.getElem_inj_iff hnodup).mp (hwaits.1.eq hgroup)
  rw [hij, ht] at hj
  exact (Option.some.inj hj).symm

theorem exists_info {l : List GroupResolution} (hlength : ¬(findGroupCycles ho s).length < 2)
    (hres : detectGroupDeadlock.resolutions ho (expandGroupCycleToThreads ho s (findGroupCycles ho s))
      (analyzeConflictGroups s) (findGroupCycles ho s) = .ok l) :
    ∃ locks, detectGroupDeadlock ho s = .ok
        ⟨findGroupCycles ho s, expandGroupCycleToThreads ho s (findGroupCycles ho s), locks, l⟩ ∧
      locks.Nodup ∧
      ∀ a, a ∈ locks ↔ ∃ i ∈ findGroupCycles ho s, ∃ group,
        (analyzeConflictGroups s)[i]? = some group ∧ (a ∈ group.locksHeld ∨ a ∈ group.locksWanted) := by
  simp only [detectGroupDeadlock, if_neg hlength, hres]
  refine ⟨_, rfl, (ho.addrs.perm _).nodup_iff.mpr (USet.nodup _), ?_⟩
  intro a
  rw [HashOrder.mem_order, USet.mem_toList]
  exact mem_involvedLocks

/--
If the identifiers of the threads are parsed then there is a report, and its parts fit together.
-/
theorem detectGroupDeadlock_parts (ho : HashOrders) (s : Tracker)
    (hparses : ∀ group ∈ analyzeConflictGroups s, ∀ t ∈ group.threads, ParsesText t) :
    ∃ info, detectGroupDeadlock ho s = .ok info ∧ (2 ≤ info.groupCycle.length → info.PartsFit s) := by
  by_cases hshort : (findGroupCycles ho s).length < 2
  . refine ⟨{}, ?_, ?_⟩
    . simp only [detectGroupDeadlock, if_pos hshort]
      rfl
    . intro h
      simp at h
  . have hnil : findGroupCycles ho s ≠ [] := by
      rintro hnil
      simp [hnil] at hshort
    obtain ⟨hcycle, hnodup⟩ := findGroupCycles_spec.1 hnil
    have hgroups := isGroupCycle_of_isCycle hcycle hnodup
    obtain ⟨hlength, hspec⟩ := expandGroupCycleToThreads_spec ho hcycle
    obtain ⟨l, hres⟩ := detectGroupDeadlock.resolutions_of_parses ho
      (expandGroupCycleToThreads ho s (findGroupCycles ho s))
      (fun group hgroup t ht => (hparses group hgroup t ht).2) (findGroupCycles ho s)
    obtain ⟨hlength_res, hspec_res⟩ := detectGroupDeadlock.resolutions_spec hres hgroups.valid
    obtain ⟨locks, hinfo, hnodup_locks, hmem_locks⟩ := exists_info hshort hres
    refine ⟨_, hinfo, ?_⟩
    intro _
    constructor
    . exact hlength
    . intro i hi
      obtain ⟨t, ht, -, hwaits⟩ := hspec i hi
      exact ⟨t, ht, hwaits⟩
    . exact hlength_res
    . intro i hi
      obtain ⟨t, ht, -, ⟨group, hgroup, hmem⟩, -⟩ := hspec i hi
      obtain ⟨group', res, hgroup', hget, hfor⟩ := hspec_res i hi
      rw [hgroup, Option.some.injEq] at hgroup'
      subst hgroup'
      have hvictim : detectGroupDeadlock.selectVictim ho
          (expandGroupCycleToThreads ho s (findGroupCycles ho s)) group = some t := by
        apply detectGroupDeadlock.selectVictim_of_only (List.mem_of_getElem? ht) hmem
        . intro u hu hgroup_u
          exact eq_of_mem_threadCycle hcycle hnodup hi ht hu ⟨group, hgroup, hgroup_u⟩
        . exact (hparses group (List.mem_of_getElem? hgroup) t hmem).1
      rw [hvictim] at hfor
      exact ⟨group, res, t, hgroup, hget, ht, hfor⟩
    . exact hnodup_locks
    . exact hmem_locks

theorem detectGroupDeadlock_parts_greedyRun :
    ∃ info, detectGroupDeadlock ⟨default, default, default⟩ (GlobalState.run GlobalState.greedyRun).toTracker
        = .ok info ∧
      info.groupCycle = [1, 0] ∧ info.PartsFit (GlobalState.run GlobalState.greedyRun).toTracker := by
  have hparses : ∀ group ∈ analyzeConflictGroups (GlobalState.run GlobalState.greedyRun).toTracker,
      ∀ t ∈ group.threads, ParsesText t := by
    have hread : ∀ group ∈ analyzeConflictGroups (GlobalState.run GlobalState.greedyRun).toTracker,
        ∀ t ∈ group.threads.toList, t ≠ [] ∧ (extractTidFromIdentifier t).toBool = true := by decide
    intro group hgroup t ht
    obtain ⟨hne, hok⟩ := hread group hgroup t ht
    refine ⟨hne, ?_⟩
    cases htid : extractTidFromIdentifier t with
    | ok tid => exact ⟨tid, htid⟩
    | error e =>
      rw [htid] at hok
      cases hok
  obtain ⟨info, hinfo, hfit⟩ := detectGroupDeadlock_parts ⟨default, default, default⟩ _ hparses
  have hcycle : (detectGroupDeadlock ⟨default, default, default⟩
      (GlobalState.run GlobalState.greedyRun).toTracker).toOption.map GroupDeadlockInfo.groupCycle
        = some [1, 0] := by decide
  rw [hinfo, Except.toOption, Option.map_some, Option.some.injEq] at hcycle
  exact ⟨info, hinfo, hcycle, hfit (by simp [hcycle])⟩

end DeadlockInterceptor
