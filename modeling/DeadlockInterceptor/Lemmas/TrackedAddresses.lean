import DeadlockInterceptor.Lemmas.GroupReports
import DeadlockInterceptor.Lemmas.InvolvedLocks
import DeadlockInterceptor.Lemmas.LockStats
import DeadlockInterceptor.Lemmas.Recurrence

/-!
This module contains which addresses the maps and the reports have: the handlers of a wait and of a lock drop
the ones that are not in user space, and nothing else adds any.
-/

namespace DeadlockInterceptor

def InUserSpace (addr : Addr) : Prop := 0x10000 ≤ addr ∧ addr ≤ 0x7fffffffffff

theorem inUserSpace_of_not_junkAddr {addr : Addr} (h : ¬junkAddr addr = true) : InUserSpace addr := by
  simp only [junkAddr, gt_iff_lt, Bool.or_eq_true, decide_eq_true_eq, not_or, UInt64.not_lt] at h
  exact ⟨h.1.2, h.2⟩

namespace Tracker

/--
The address is a key of one of the maps, or is in one of their values.
-/
inductive Tracks (s : Tracker) (addr : Addr) : Prop where
  | owner (h : addr ∈ s.lockOwners)
  | waiters (h : addr ∈ s.futexWaiters)
  | stats (h : addr ∈ s.lockStats)
  | held (t : ThreadName) (h : s.Held t addr)
  | waitStart (t : ThreadName) (h : addr ∈ s.waitStartTimes.getD t ∅)

theorem not_tracks_empty (a : Addr) : ¬empty.Tracks a := by
  rintro (h | h | h | ⟨t, h⟩ | ⟨t, h⟩)
  . exact AList.notMem_empty a h
  . exact AList.notMem_empty a h
  . exact AList.notMem_empty a h
  . exact USet.notMem_empty a h
  . exact AList.notMem_empty a h

theorem Tracks.of_owner {s : Tracker} {a : Addr} {t : ThreadName} (h : s.owner a = some t) : s.Tracks a :=
  .owner (AList.lookup_isSome.mp (Option.isSome_of_eq_some h))

theorem Same.tracks {s s' : Tracker} (hs : s.Same s') {a : Addr} (h : s'.Tracks a) : s.Tracks a := by
  cases h with
  | owner h =>
    obtain ⟨t, ht⟩ := AList.lookup_of_mem h
    exact .of_owner ((hs.owner a).symm.trans ht)
  | waiters h =>
    rw [← AList.lookup_isSome, hs.futexWaiters, AList.lookup_isSome] at h
    exact .waiters h
  | stats h =>
    rw [hs.lockStats] at h
    exact .stats h
  | held t h => exact .held t ((hs.held t a).mp h)
  | waitStart t h =>
    rw [hs.waitStartTimes] at h
    exact .waitStart t h

section handlers

variable {s : Tracker} {now : Time} {t : ThreadName} {a b : Addr}

theorem exists_updateLockStats_eq (s : Tracker) (now : Time) (t : ThreadName) (a : Addr) :
    ∃ stats, s.updateLockStats now a t
      =
    { s with futexWaiters := s.futexWaiters.touch a [], lockStats := s.lockStats.insert a stats } := by
  simp only [updateLockStats]
  split
  . exact ⟨_, rfl⟩
  . exact ⟨_, rfl⟩

theorem tracks_updateLockStats (h : (s.updateLockStats now a t).Tracks b) : s.Tracks b ∨ b = a := by
  obtain ⟨stats, heq⟩ := exists_updateLockStats_eq s now t a
  rw [heq] at h
  cases h with
  | owner h => exact .inl (.owner h)
  | waiters h => exact (AList.mem_touch.mp h).symm.imp_left .waiters
  | stats h => exact ((AList.mem_insert _).mp h).symm.imp_left .stats
  | held x h => exact .inl (.held x h)
  | waitStart x h => exact .inl (.waitStart x h)

theorem tracks_onLock (h : (s.onLock now t a).Tracks b) : s.Tracks b ∨ b = a := by
  rcases tracks_updateLockStats h with h | rfl
  . cases h with
    | owner h => exact ((AList.mem_insert _).mp h).symm.imp_left .owner
    | waiters h => exact .inl (.waiters ((AList.mem_mapVal _ _ _).mp h))
    | stats h => exact .inl (.stats h)
    | held x h =>
      rw [Held, AList.getD_insert] at h
      split at h
      . exact (USet.mem_insert.mp h).symm.imp_left (.held t)
      . exact .inl (.held x h)
    | waitStart x h => exact .inl (.waitStart x h)
  . exact .inr rfl

theorem tracks_refreshLockStats (h : (s.refreshLockStats a).Tracks b) : s.Tracks b := by
  unfold refreshLockStats at h
  split at h
  . next stats hstats =>
    cases h with
    | owner h => exact .owner h
    | waiters h => exact .waiters h
    | stats h =>
      rcases (AList.mem_insert _).mp h with rfl | h
      . exact .stats (AList.lookup_isSome.mp (Option.isSome_of_eq_some hstats))
      . exact .stats h
    | held x h => exact .held x h
    | waitStart x h => exact .waitStart x h
  . exact h

theorem tracks_addWaitEdge (h : (s.addWaitEdge t a).Tracks b) : s.Tracks b := by
  have heq : ∃ waitsFor, s.addWaitEdge t a = { s with waitsFor := waitsFor } := by
    unfold addWaitEdge
    split
    . split
      . exact ⟨_, rfl⟩
      . exact ⟨_, rfl⟩
    . exact ⟨_, rfl⟩
  obtain ⟨waitsFor, heq⟩ := heq
  rw [heq] at h
  cases h with
  | owner h => exact .owner h
  | waiters h => exact .waiters h
  | stats h => exact .stats h
  | held x h => exact .held x h
  | waitStart x h => exact .waitStart x h

theorem tracks_onWait (h : (s.onWait now t a).Tracks b) : s.Tracks b ∨ b = a := by
  cases tracks_addWaitEdge (tracks_refreshLockStats h) with
  | owner h => exact .inl (.owner h)
  | waiters h => exact ((AList.mem_insert _).mp h).symm.imp_left .waiters
  | stats h => exact .inl (.stats h)
  | held x h => exact .inl (.held x h)
  | waitStart x h =>
    rw [AList.getD_insert] at h
    split at h
    . exact ((AList.mem_insert _).mp h).symm.imp_left (.waitStart t)
    . exact .inl (.waitStart x h)

theorem tracks_onWake (h : (s.onWake a).Tracks b) : s.Tracks b := by
  unfold onWake at h
  split at h
  . exact h
  . cases tracks_refreshLockStats h with
    | owner h => exact .owner h
    | waiters h => exact .waiters ((AList.mem_erase).mp h).2
    | stats h => exact .stats h
    | held x h => exact .held x h
    | waitStart x h => exact .waitStart x h

end handlers

section cleanVictim

variable {s : Tracker} {victimName : ThreadName} {locks : List Addr} {a : Addr}

theorem tracks_cleanVictim (h : (s.cleanVictim victimName locks).Tracks a) : s.Tracks a := by
  cases h with
  | owner h => exact .owner (AList.mem_of_mem_foldl_erase (p := fun o => o = some victimName) h)
  | waiters h => exact .waiters ((AList.mem_mapVal _ _ _).mp h)
  | stats h => exact .stats h
  | held x h =>
    rw [Held, cleanVictim, AList.getD_erase] at h
    split at h
    . exact absurd h (USet.notMem_empty a)
    . exact .held x h
  | waitStart x h => exact .waitStart x h

end cleanVictim

end Tracker

namespace GlobalState

variable {s : GlobalState} {env : Env} {tid : Pid} {a b : Addr}

theorem tracks_onLock (h : (s.onLock env tid a).Tracks b) : s.Tracks b ∨ InUserSpace b := by
  unfold onLock at h
  split at h
  . exact .inl h
  . next hjunk =>
    rcases Tracker.tracks_onLock h with h | rfl
    . exact .inl h
    . exact .inr (inUserSpace_of_not_junkAddr hjunk)

theorem tracks_onWait (h : (s.onWait env tid a).Tracks b) : s.Tracks b ∨ InUserSpace b := by
  unfold onWait at h
  split at h
  . exact .inl h
  . next hjunk =>
    rcases Tracker.tracks_onWait h with h | rfl
    . exact .inl h
    . exact .inr (inUserSpace_of_not_junkAddr hjunk)

theorem tracks_onWake (h : (s.onWake env tid a).Tracks b) : s.Tracks b := Tracker.tracks_onWake h

end GlobalState

theorem tracks_handleSyscall {env : Env} {tid : Pid} {regs : Option Regs} {s : GlobalState} {a : Addr}
    (h : (handleSyscall env tid regs s).Tracks a) : s.Tracks a ∨ InUserSpace a := by
  unfold handleSyscall at h
  cases regs with
  | none => exact .inl h
  | some regs =>
    simp only at h
    split_ifs at h
    . exact GlobalState.tracks_onWait h
    . exact (GlobalState.tracks_onLock h).imp_left GlobalState.tracks_onWake
    . exact GlobalState.tracks_onWait h
    . exact .inl h
    . exact .inl h

section report

variable {s : Tracker} {a : Addr}

theorem tracks_of_mem_findLocksInDeadlock {cycle : List ThreadName} (h : a ∈ findLocksInDeadlock s cycle) :
    s.Tracks a := by
  obtain ⟨x, -, -, howner, -⟩ := (mem_findLocksInDeadlock s cycle a).mp h
  exact .of_owner howner

theorem tracks_of_mem_locksHeld {group : ConflictGroup} (hgroup : group ∈ analyzeConflictGroups s)
    (h : a ∈ group.locksHeld) : s.Tracks a := by
  obtain ⟨t, -, ht⟩ := (mem_locksHeld_analyze hgroup).mp h
  exact .held t ht

theorem tracks_of_mem_locksWanted {group : ConflictGroup} (hgroup : group ∈ analyzeConflictGroups s)
    (h : a ∈ group.locksWanted) : s.Tracks a := by
  obtain ⟨-, -, u, -, howner⟩ := (mem_locksWanted_analyze hgroup).mp h
  exact .of_owner howner

namespace detectGroupDeadlock

theorem exists_group_of_mem_resolutions {ho : HashOrders} {threadCycle : List ThreadName}
    {groups : List ConflictGroup} {groupCycle : List Nat} {l : List GroupResolution}
    (h : resolutions ho threadCycle groups groupCycle = .ok l) {res : GroupResolution} (hres : res ∈ l) :
    ∃ group ∈ groups, res.heldLocks = group.locksHeld ∧ res.wantedLocks = group.locksWanted := by
  induction groupCycle generalizing l with
  | nil =>
    obtain rfl := Except.ok.inj h
    exact absurd hres List.not_mem_nil
  | cons i groupCycle ih =>
    cases hgroup : groups[i]? with
    | none =>
      simp only [resolutions, hgroup] at h
      exact ih h hres
    | some group =>
      obtain ⟨tid, rest, hrest, rfl⟩ := exists_of_resolutions_cons hgroup h
      rcases List.mem_cons.mp hres with rfl | hres
      . exact ⟨group, List.mem_of_getElem? hgroup, rfl, rfl⟩
      . exact ih hrest hres

end detectGroupDeadlock

def GroupDeadlockInfo.Mentions (groupDeadlock : GroupDeadlockInfo) (addr : Addr) : Prop :=
  addr ∈ groupDeadlock.involvedLocks ∨
    ∃ res ∈ groupDeadlock.groupResolutions, addr ∈ res.heldLocks ∨ addr ∈ res.wantedLocks

theorem tracks_of_mentions {ho : HashOrders} {groupDeadlock : GroupDeadlockInfo}
    (h : detectGroupDeadlock ho s = .ok groupDeadlock) (ha : groupDeadlock.Mentions a) : s.Tracks a := by
  rcases eq_of_detectGroupDeadlock h with rfl | ⟨-, locks, l, hlocks, hres, rfl⟩
  . simp [GroupDeadlockInfo.Mentions] at ha
  . rcases ha with ha | ⟨res, hmem, ha⟩
    . obtain ⟨i, -, group, hgroup, ha | ha⟩ := (hlocks a).mp ha
      . exact tracks_of_mem_locksHeld (List.mem_of_getElem? hgroup) ha
      . exact tracks_of_mem_locksWanted (List.mem_of_getElem? hgroup) ha
    . obtain ⟨group, hgroup, hheld, hwanted⟩ := detectGroupDeadlock.exists_group_of_mem_resolutions hres hmem
      rw [hheld, hwanted] at ha
      rcases ha with ha | ha
      . exact tracks_of_mem_locksHeld hgroup ha
      . exact tracks_of_mem_locksWanted hgroup ha

end report

namespace World

variable {w : World} {a : Addr}

theorem tracks_resolveDeadlockStrategy1 {env : Strategy1Env} {deadlock : DeadlockInfo}
    (h : (w.resolveDeadlockStrategy1 env deadlock).2.Tracks a) : w.Tracks a :=
  resolveDeadlockStrategy1_rule (I := fun s => s.Tracks a → w.Tracks a) env deadlock w (fun h => h)
    (fun _ => Tracker.tracks_cleanVictim) h

theorem tracks_emergencyDeadlockBreak {env : EmergencyEnv} {deadlock : DeadlockInfo}
    (h : (w.emergencyDeadlockBreak env deadlock).2.Tracks a) : w.Tracks a := by
  unfold emergencyDeadlockBreak at h
  split at h
  . exact h
  . exact h
  . cases h with
    | owner h => exact .owner (AList.mem_of_mem_eraseVal h)
    | waiters h => exact .waiters h
    | stats h => exact .stats h
    | held x h =>
      rw [Tracker.Held, AList.getD_erase] at h
      split at h
      . exact absurd h (USet.notMem_empty a)
      . exact .held x h
    | waitStart x h => exact .waitStart x h

theorem tracks_cleanupParentProcess {proc : ProcFs} {tid : Pid} {locks : List Addr}
    (h : (w.cleanupParentProcess proc tid locks).2.Tracks a) : w.Tracks a := by
  cases h with
  | owner h =>
    exact .owner (AList.mem_of_mem_foldl_erase (p := fun o => ∃ owner ∈ o, toStr tid <:+: owner) h)
  | waiters h => exact .waiters ((AList.mem_mapVal _ _ _).mp (AList.mem_of_mem_eraseVal h))
  | stats h => exact .stats h
  | held x h => exact .held x h
  | waitStart x h => exact .waitStart x h

structure Confined (w : World) : Prop where
  tracked : ∀ a, w.Tracks a → InUserSpace a
  recorded : ∀ deadlock ∈ w.detectedDeadlocks, ∀ a ∈ deadlock.involvedLocks, InUserSpace a

theorem confined_init (memory : Memory) : Confined ⟨.init, memory⟩ where
  tracked a h := absurd h (Tracker.not_tracks_empty a)
  recorded _ h := absurd h List.not_mem_nil

theorem Confined.of_tracks {w' : World} (h : w.Confined)
    (htracks : ∀ a, w'.Tracks a → w.Tracks a ∨ InUserSpace a)
    (hrecorded : w'.detectedDeadlocks = w.detectedDeadlocks) : w'.Confined where
  tracked a ha := (htracks a ha).elim (h.tracked a) id
  recorded := hrecorded ▸ h.recorded

theorem Confined.resolveThreadDeadlock (h : w.Confined) (env : ResolveEnv) (cycle : List ThreadName) :
    (w.resolveThreadDeadlock env cycle).2.Confined := by
  apply resolveThreadDeadlock_rule
  . intro deadlock w' h'
    apply h'.of_tracks
    . exact fun a ha => .inl (tracks_resolveDeadlockStrategy1 ha)
    . exact (resolveDeadlockStrategy1_booked env.strategy1 deadlock w').1
  . intro deadlock w' h'
    apply h'.of_tracks
    . exact fun a ha => .inl (tracks_emergencyDeadlockBreak ha)
    . exact (emergencyDeadlockBreak_booked env.emergency deadlock w').1
  . intro deadlock w' hlocks h'
    refine ⟨h'.tracked, ?_⟩
    intro deadlock' hmem a ha
    rcases List.mem_append.mp hmem with hmem | hmem
    . exact h'.recorded deadlock' hmem a ha
    . rw [List.mem_singleton.mp hmem, hlocks] at ha
      exact h.tracked a (tracks_of_mem_findLocksInDeadlock ha)
  . exact ⟨h.tracked, h.recorded⟩

theorem Confined.resolveGroupDeadlock (h : w.Confined) (ho : HashOrders) (env : GroupEnv)
    (groupDeadlock : GroupDeadlockInfo) :
    (World.resolveGroupDeadlock ho env groupDeadlock
      { w with deadlockCounter := w.deadlockCounter + 1 }).2.Confined :=
  ⟨h.tracked, h.recorded⟩

theorem Confined.afterSyscall (h : w.Confined) (event : EventEnv) (tid : Pid) :
    (w.afterSyscall event tid).Confined := by
  apply h.of_tracks
  . exact fun a ha => tracks_handleSyscall ((event.rehash_same _).tracks ha)
  . apply afterSyscall_detectedDeadlocks

end World

end DeadlockInterceptor
