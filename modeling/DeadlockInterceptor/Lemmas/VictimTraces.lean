import DeadlockInterceptor.Lemmas.ParentCleanUp
import DeadlockInterceptor.Lemmas.Resolvers

/-!
This module contains what the three clean-ups leave of the thread they clean up after. Each of them misses
a part of what one of the others does, and none of them looks into the sets of `waits_for`.
-/

namespace DeadlockInterceptor

namespace Tracker

/--
The thread `v` is nowhere in the maps that the detection works on.
-/
structure Traceless (s : Tracker) (v : ThreadName) : Prop where
  owner : ∀ a, s.owner a ≠ some v
  threadLocks : v ∉ s.threadLocks
  waitsFor : v ∉ s.waitsFor
  waits : ∀ t, ¬s.Waits t v
  waiters : ∀ a, v ∉ s.waiters a

def AwaitedByOther (s : Tracker) (v : ThreadName) : Prop := ∃ t, t ≠ v ∧ s.Waits t v

variable {s s' : Tracker} {v : ThreadName}

theorem traceless_iff_of_erase (h : s'.waitsFor = s.waitsFor.erase v) :
    s'.Traceless v
      ↔
    ¬s.AwaitedByOther v ∧ (∀ a, s'.owner a ≠ some v) ∧ v ∉ s'.threadLocks ∧ ∀ a, v ∉ s'.waiters a := by
  have hwaits : ∀ t, s'.Waits t v ↔ t ≠ v ∧ s.Waits t v := by
    intro t
    rw [Waits, h, AList.getD_erase]
    split
    . next ht => simp [ht]
    . next ht => simp [ht, Waits]
  constructor
  . intro ht
    refine ⟨?_, ht.owner, ht.threadLocks, ht.waiters⟩
    rintro ⟨t, hne, htv⟩
    apply ht.waits t
    rw [hwaits]
    exact ⟨hne, htv⟩
  . rintro ⟨hawaited, howner, hlocks, hwaiters⟩
    refine ⟨howner, hlocks, ?_, ?_, hwaiters⟩
    . rw [h]
      simp
    . intro t ht
      rw [hwaits] at ht
      exact hawaited ⟨t, ht⟩

theorem notMem_getD_mapVal_filter (m : UMap Addr (List ThreadName)) (v : ThreadName) (a : Addr) :
    v ∉ (m.mapVal (List.filter (· ≠ v))).getD a [] := by
  have := AList.getD_mapVal (List.filter (· ≠ v)) m a []
  rw [List.filter_nil] at this
  rw [this, List.mem_filter]
  simp

end Tracker

namespace World

variable {w w' : World} {deadlock : DeadlockInfo} {victimName : ThreadName} {tid : Pid}

theorem strategy1_traceless_iff {env : Strategy1Env}
    (hfind : findVictim env.threadExists deadlock.cycle = .ok (some (victimName, tid)))
    (h : w.resolveDeadlockStrategy1 env deadlock = (.ok true, w')) :
    w'.Traceless victimName
      ↔
    ¬w.AwaitedByOther victimName ∧ ∀ a, w.owner a = some victimName → a ∈ deadlock.involvedLocks := by
  have hw' : w'.toTracker = w.toTracker.cleanVictim victimName deadlock.involvedLocks := by
    rcases resolveDeadlockStrategy1_cases env deadlock w with
      ⟨e, -, heq⟩ | ⟨memory, heq⟩ | ⟨name, tid', run, status, hfind', -, -, -, heq⟩
    . rw [heq] at h
      simp at h
    . rw [heq] at h
      simp at h
    . rw [hfind] at hfind'
      simp only [Except.ok.injEq, Option.some.injEq, Prod.mk.injEq] at hfind'
      rw [heq, Prod.mk.injEq] at h
      rw [← h.2, hfind'.1]
  rw [hw', Tracker.traceless_iff_of_erase (s := w.toTracker) rfl]
  have howner : ∀ a, (w.toTracker.cleanVictim victimName deadlock.involvedLocks).owner a = some victimName
      ↔ w.owner a = some victimName ∧ a ∉ deadlock.involvedLocks := by
    intro a
    have hfold := AList.lookup_foldl_erase_eq_some (p := fun o => o = some victimName)
      (l := deadlock.involvedLocks) (m := w.lockOwners) (k := a) (v := victimName)
    rw [and_iff_left rfl] at hfold
    exact hfold
  apply and_congr_right
  intro _
  constructor
  . rintro ⟨h1, -⟩ a ha
    by_contra hnot
    apply h1 a
    rw [howner]
    exact ⟨ha, hnot⟩
  . intro hlocks
    refine ⟨?_, by simp [Tracker.cleanVictim], Tracker.notMem_getD_mapVal_filter _ _⟩
    intro a ha
    rw [howner] at ha
    exact ha.2 (hlocks a ha.1)

theorem emergency_traceless_iff {env : EmergencyEnv}
    (hfind : findVictim env.threadExists deadlock.cycle = .ok (some (victimName, tid)))
    (h : w.emergencyDeadlockBreak env deadlock = (.ok true, w')) :
    w'.Traceless (w.threadIdentifier env.proc tid).1
      ↔
    ¬w.AwaitedByOther (w.threadIdentifier env.proc tid).1 ∧
      ∀ a, (w.threadIdentifier env.proc tid).1 ∉ w.waiters a := by
  simp only [emergencyDeadlockBreak, hfind, Prod.mk.injEq, true_and] at h
  rw [Tracker.traceless_iff_of_erase (s := w.toTracker) (by rw [← h]; rfl), ← h]
  apply and_congr_right
  intro _
  constructor
  . rintro ⟨-, -, hwaiters⟩
    exact hwaiters
  . intro hwaiters
    refine ⟨?_, ?_, hwaiters⟩
    . intro a ha
      have herased := (AList.lookup_eraseVal_eq_some.mp ha).2
      exact herased rfl
    . simp

theorem parent_traceless_iff {proc : ProcFs} {locks : List Addr} :
    (w.cleanupParentProcess proc tid locks).2.Traceless (w.threadIdentifier proc tid).1
      ↔
    ¬w.AwaitedByOther (w.threadIdentifier proc tid).1 ∧
      (∀ a, w.owner a = some (w.threadIdentifier proc tid).1 → a ∈ locks) ∧
      (w.threadIdentifier proc tid).1 ∉ w.threadLocks := by
  rw [Tracker.traceless_iff_of_erase (s := w.toTracker) rfl]
  have howner : ∀ a, (w.cleanupParentProcess proc tid locks).2.owner a
        = some (w.threadIdentifier proc tid).1
      ↔ w.owner a = some (w.threadIdentifier proc tid).1 ∧ a ∉ locks := by
    intro a
    rw [owner_cleanupParentProcess, and_iff_left toStr_infix_victim]
  apply and_congr_right
  intro _
  constructor
  . rintro ⟨h1, h2, -⟩
    refine ⟨?_, h2⟩
    intro a ha
    by_contra hnot
    apply h1 a
    rw [howner]
    exact ⟨ha, hnot⟩
  . rintro ⟨hlocks, hheld⟩
    refine ⟨?_, hheld, ?_⟩
    . intro a ha
      rw [howner] at ha
      exact ha.2 (hlocks a ha.1)
    . intro a
      have := Tracker.notMem_getD_mapVal_filter w.futexWaiters (w.threadIdentifier proc tid).1 a
      rw [← AList.getD_eraseVal] at this
      exact this

/--
When a clean-up leaves no trace of its victim. All of them need that no other thread waits for the victim.
Strategy 1 needs that the victim owns no other locks than the involved ones, the emergency break that it is
registered nowhere, and the clean-up of the parent that it holds nothing but owns only locks it is given.
-/
theorem cleanUps_traceless_iff (w w' : World) :
    (∀ (env : Strategy1Env) (deadlock : DeadlockInfo) (victimName : ThreadName) (tid : Pid),
      findVictim env.threadExists deadlock.cycle = .ok (some (victimName, tid)) →
      w.resolveDeadlockStrategy1 env deadlock = (.ok true, w') →
        (w'.Traceless victimName
          ↔
          ¬w.AwaitedByOther victimName ∧ ∀ a, w.owner a = some victimName → a ∈ deadlock.involvedLocks)) ∧
    (∀ (env : EmergencyEnv) (deadlock : DeadlockInfo) (name : ThreadName) (tid : Pid),
      findVictim env.threadExists deadlock.cycle = .ok (some (name, tid)) →
      w.emergencyDeadlockBreak env deadlock = (.ok true, w') →
        (w'.Traceless (w.threadIdentifier env.proc tid).1
          ↔
          ¬w.AwaitedByOther (w.threadIdentifier env.proc tid).1 ∧
            ∀ a, (w.threadIdentifier env.proc tid).1 ∉ w.waiters a)) ∧
    (∀ (proc : ProcFs) (tid : Pid) (locks : List Addr),
      w.cleanupParentProcess proc tid locks = (true, w') →
        (w'.Traceless (w.threadIdentifier proc tid).1
          ↔
          ¬w.AwaitedByOther (w.threadIdentifier proc tid).1 ∧
            (∀ a, w.owner a = some (w.threadIdentifier proc tid).1 → a ∈ locks) ∧
            (w.threadIdentifier proc tid).1 ∉ w.threadLocks)) := by
  refine ⟨?_, ?_, ?_⟩
  . intro env deadlock victimName tid hfind h
    exact strategy1_traceless_iff hfind h
  . intro env deadlock name tid hfind h
    exact emergency_traceless_iff hfind h
  . intro proc tid locks h
    have hw' : (w.cleanupParentProcess proc tid locks).2 = w' := by rw [h]
    rw [← hw']
    exact parent_traceless_iff

def awaitedWorld : World where
  toGlobalState := GlobalState.run [⟨.wake, 1, 0x10000, .bare⟩, ⟨.wait, 2, 0x10000, .bare⟩]
  memory := fun _ => 0

theorem awaitedWorld_awaited : awaitedWorld.AwaitedByOther (GlobalState.init.identifier 1) :=
  ⟨GlobalState.init.identifier 2, by decide, by decide⟩

theorem exists_trace :
    (¬∀ (env : Strategy1Env) (deadlock : DeadlockInfo) (w w' : World) (victimName : ThreadName) (tid : Pid),
      findVictim env.threadExists deadlock.cycle = .ok (some (victimName, tid)) →
      w.resolveDeadlockStrategy1 env deadlock = (.ok true, w') → w'.Traceless victimName) ∧
    (¬∀ (env : EmergencyEnv) (deadlock : DeadlockInfo) (w w' : World) (name : ThreadName) (tid : Pid),
      findVictim env.threadExists deadlock.cycle = .ok (some (name, tid)) →
      w.emergencyDeadlockBreak env deadlock = (.ok true, w') →
        w'.Traceless (w.threadIdentifier env.proc tid).1) ∧
    (¬∀ (proc : ProcFs) (tid : Pid) (locks : List Addr) (w w' : World),
      w.cleanupParentProcess proc tid locks = (true, w') →
        w'.Traceless (w.threadIdentifier proc tid).1) := by
  let deadlock : DeadlockInfo := ⟨[GlobalState.init.identifier 1], [], 1, false⟩
  have hfind : findVictim (fun _ => true) deadlock.cycle = .ok (some (GlobalState.init.identifier 1, 1)) := by
    decide
  have hname : (awaitedWorld.threadIdentifier Env.bare.proc 1).1 = GlobalState.init.identifier 1 := by
    decide
  refine ⟨?_, ?_, ?_⟩
  . intro h
    let env : Strategy1Env := ⟨fun _ => true, some ⟨⟨fun _ => .error 1, 2⟩, none, some (.exited 0)⟩⟩
    have hresult : awaitedWorld.resolveDeadlockStrategy1 env deadlock = _ :=
      resolveDeadlockStrategy1_of_shadow hfind (by decide) rfl rfl
    have htraceless := h _ _ _ _ _ _ hfind hresult
    exact ((strategy1_traceless_iff hfind hresult).mp htraceless).1 awaitedWorld_awaited
  . intro h
    rcases emergencyDeadlockBreak_cases ⟨fun _ => true, Env.bare.proc⟩ deadlock awaitedWorld with
      ⟨e, herr, -⟩ | ⟨hnone, -⟩ | ⟨victimName, tid, w', hvictim, hresult, -⟩
    . rw [hfind] at herr
      simp at herr
    . rw [hfind] at hnone
      simp at hnone
    . have htraceless := h _ _ _ _ _ _ hfind hresult
      have hawaited := (emergency_traceless_iff hfind hresult).mp htraceless
      rw [hname] at hawaited
      exact hawaited.1 awaitedWorld_awaited
  . intro h
    have hawaited := parent_traceless_iff.mp (h Env.bare.proc 1 [] awaitedWorld _ rfl)
    rw [hname] at hawaited
    exact hawaited.1 awaitedWorld_awaited

end World

end DeadlockInterceptor
