import DeadlockInterceptor.Impl.Resolution

/-!
This module contains what the resolvers of a deadlock of threads do: whom they choose, what they return and
what they change.
-/

namespace DeadlockInterceptor

section findVictim

def Dead (threadExists : Pid → Bool) (threadName : ThreadName) : Prop :=
  ∃ tid, extractTidFromIdentifier threadName = .ok tid ∧ threadExists tid = false

variable {threadExists : Pid → Bool} {l : List ThreadName}

theorem findVictim_cons_of_live {victim : ThreadName} {tid : Pid}
    (htid : extractTidFromIdentifier victim = .ok tid) (hlive : threadExists tid = true) :
    findVictim threadExists (victim :: l) = .ok (some (victim, tid)) := by
  rw [findVictim, htid]
  simp only [hlive, ↓reduceIte]

theorem findVictim_cons_of_dead {x : ThreadName} (h : Dead threadExists x) :
    findVictim threadExists (x :: l) = findVictim threadExists l := by
  obtain ⟨tid, htid, hdead⟩ := h
  rw [findVictim, htid]
  simp only [hdead, Bool.false_eq_true, ↓reduceIte]

theorem findVictim_append {pre : List ThreadName} (hpre : ∀ x ∈ pre, Dead threadExists x) :
    findVictim threadExists (pre ++ l) = findVictim threadExists l := by
  induction pre with
  | nil => rfl
  | cons x pre ih =>
    rw [List.cons_append, findVictim_cons_of_dead (hpre x List.mem_cons_self)]
    exact ih fun y hy => hpre y (List.mem_cons_of_mem x hy)

theorem findVictim_of_dead (h : ∀ x ∈ l, Dead threadExists x) : findVictim threadExists l = .ok none := by
  have happend := findVictim_append (l := []) h
  rwa [List.append_nil] at happend

theorem findVictim_eq_some {victim : ThreadName} {tid : Pid} {pre post : List ThreadName}
    (hpre : ∀ x ∈ pre, Dead threadExists x) (htid : extractTidFromIdentifier victim = .ok tid)
    (hlive : threadExists tid = true) :
    findVictim threadExists (pre ++ victim :: post) = .ok (some (victim, tid)) := by
  rw [findVictim_append hpre, findVictim_cons_of_live htid hlive]

/--
Everything before the point where the search for a victim ends is dead. It ends at a live thread, at an
identifier without a tid, or at the end of the list.
-/
theorem findVictim_cases (threadExists : Pid → Bool) (l : List ThreadName) :
    (∃ pre victim post tid, l = pre ++ victim :: post ∧ (∀ x ∈ pre, Dead threadExists x) ∧
      extractTidFromIdentifier victim = .ok tid ∧ threadExists tid = true ∧
      findVictim threadExists l = .ok (some (victim, tid))) ∨
    (∃ x ∈ l, ∃ e, extractTidFromIdentifier x = .error e ∧ findVictim threadExists l = .error e) ∨
    ((∀ x ∈ l, Dead threadExists x) ∧ findVictim threadExists l = .ok none) := by
  induction l with
  | nil => exact .inr (.inr ⟨by simp, rfl⟩)
  | cons x l ih =>
    cases htid : extractTidFromIdentifier x with
    | error e => exact .inr (.inl ⟨x, List.mem_cons_self, e, htid, by rw [findVictim, htid]⟩)
    | ok tid =>
      cases hlive : threadExists tid with
      | true =>
        exact .inl ⟨[], x, l, tid, rfl, by simp, htid, hlive, findVictim_cons_of_live htid hlive⟩
      | false =>
        have hdead : Dead threadExists x := ⟨tid, htid, hlive⟩
        rw [findVictim_cons_of_dead hdead]
        rcases ih with ⟨pre, victim, post, tid', rfl, hpre, h⟩ | ⟨y, hy, h⟩ | ⟨hl, h⟩
        . refine .inl ⟨x :: pre, victim, post, tid', rfl, ?_, h⟩
          intro y hy
          rcases List.mem_cons.mp hy with rfl | hy
          . exact hdead
          . exact hpre y hy
        . exact .inr (.inl ⟨y, List.mem_cons_of_mem x hy, h⟩)
        . refine .inr (.inr ⟨?_, h⟩)
          intro y hy
          rcases List.mem_cons.mp hy with rfl | hy
          . exact hdead
          . exact hl y hy

end findVictim

namespace World

variable {w : World} {deadlock : DeadlockInfo}

/--
The ways through `resolve_deadlock_strategy1`: an identifier without a tid, a failure, or a victim and a
shadow process that has ended in whatever way.
-/
theorem resolveDeadlockStrategy1_cases (env : Strategy1Env) (deadlock : DeadlockInfo) (w : World) :
    (∃ e, findVictim env.threadExists deadlock.cycle = .error e ∧
      w.resolveDeadlockStrategy1 env deadlock = (.error e, w.setMonitoring false)) ∨
    (∃ memory, w.resolveDeadlockStrategy1 env deadlock
      = (.ok false, { w with memory := memory, monitoringActive := true })) ∨
    (∃ victimName victimTid run status,
      findVictim env.threadExists deadlock.cycle = .ok (some (victimName, victimTid)) ∧
      victimTid ≠ 0 ∧ env.shadow = some run ∧ run.status = some status ∧
      w.resolveDeadlockStrategy1 env deadlock
        =
      (.ok true, { w with
        memory := (run.unlocker deadlock.involvedLocks w.memory).memory
        monitoringActive := true
        toTracker := w.toTracker.cleanVictim victimName deadlock.involvedLocks })) := by
  unfold resolveDeadlockStrategy1
  split
  . next e h => exact .inl ⟨e, h, rfl⟩
  . exact .inr (.inl ⟨w.memory, rfl⟩)
  . next victimName victimTid h =>
    split
    . exact .inr (.inl ⟨w.memory, rfl⟩)
    . next htid =>
      split
      . exact .inr (.inl ⟨w.memory, rfl⟩)
      . next run hrun =>
        simp only
        split
        . exact .inr (.inl ⟨_, rfl⟩)
        . next status hstatus =>
          exact .inr (.inr ⟨victimName, victimTid, run, status, h, htid, hrun, hstatus, rfl⟩)

/-- What holds of the maps as they are and without a victim holds of the maps that strategy 1 leaves. -/
theorem resolveDeadlockStrategy1_rule {I : Tracker → Prop} (env : Strategy1Env) (deadlock : DeadlockInfo) (w : World)
    (h : I w.toTracker) (hclean : ∀ victimName, I (w.toTracker.cleanVictim victimName deadlock.involvedLocks)) :
    I (w.resolveDeadlockStrategy1 env deadlock).2.toTracker := by
  rcases resolveDeadlockStrategy1_cases env deadlock w with
    ⟨e, -, heq⟩ | ⟨memory, heq⟩ | ⟨victimName, tid, run, status, -, -, -, -, heq⟩
  . rw [heq]
    exact h
  . rw [heq]
    exact h
  . rw [heq]
    exact hclean victimName

theorem resolveDeadlockStrategy1_of_shadow {env : Strategy1Env} {victimName : ThreadName}
    {victimTid : Pid} {run : ShadowRun} {status : WaitStatus}
    (hfind : findVictim env.threadExists deadlock.cycle = .ok (some (victimName, victimTid)))
    (htid : victimTid ≠ 0) (hrun : env.shadow = some run) (hstatus : run.status = some status) :
    w.resolveDeadlockStrategy1 env deadlock
      =
    (.ok true, { w with
      memory := (run.unlocker deadlock.involvedLocks w.memory).memory
      monitoringActive := true
      toTracker := w.toTracker.cleanVictim victimName deadlock.involvedLocks }) := by
  simp only [resolveDeadlockStrategy1, hfind, if_neg htid, hrun, hstatus]
  rfl

theorem emergencyDeadlockBreak_cases (env : EmergencyEnv) (deadlock : DeadlockInfo) (w : World) :
    (∃ e, findVictim env.threadExists deadlock.cycle = .error e ∧
      w.emergencyDeadlockBreak env deadlock = (.error e, w)) ∨
    (findVictim env.threadExists deadlock.cycle = .ok none ∧
      w.emergencyDeadlockBreak env deadlock = (.ok false, w)) ∨
    (∃ victimName tid w', findVictim env.threadExists deadlock.cycle = .ok (some (victimName, tid)) ∧
      w.emergencyDeadlockBreak env deadlock = (.ok true, w') ∧
      w'.waitsFor = w.waitsFor.erase (w.toGlobalState.threadIdentifier env.proc tid).1 ∧
      w'.monitoringActive = w.monitoringActive ∧ w'.targetPid = w.targetPid ∧
      w'.threadInfoCache = (w.toGlobalState.threadIdentifier env.proc tid).2.threadInfoCache) := by
  unfold emergencyDeadlockBreak
  split
  . next e h => exact .inl ⟨e, h, rfl⟩
  . next h => exact .inr (.inl ⟨h, rfl⟩)
  . next victimName tid h => exact .inr (.inr ⟨victimName, tid, _, h, rfl, rfl, rfl, rfl, rfl⟩)

/--
What booking, the two resolvers and the record in `detected_deadlocks` keep is kept by a resolution. The record
is of the locks that have been found in the maps before.
-/
theorem resolveThreadDeadlock_rule {I : World → Prop} {env : ResolveEnv} {cycle : List ThreadName}
    (hstrategy1 : ∀ deadlock w, I w → I (w.resolveDeadlockStrategy1 env.strategy1 deadlock).2)
    (hemergency : ∀ deadlock w, I w → I (w.emergencyDeadlockBreak env.emergency deadlock).2)
    (hrecord : ∀ deadlock w', deadlock.involvedLocks = findLocksInDeadlock w.toTracker cycle → I w' →
      I (resolveThreadDeadlock.record deadlock w'))
    (hbooked : I { w with deadlockCounter := w.deadlockCounter + 1 }) :
    I (w.resolveThreadDeadlock env cycle).2 := by
  unfold resolveThreadDeadlock
  simp only
  generalize hdeadlock : DeadlockInfo.mk cycle _ _ false = deadlock
  have h₁ := hstrategy1 deadlock _ hbooked
  split
  . next heq =>
    rw [heq] at h₁
    exact h₁
  . next heq =>
    rw [heq] at h₁
    exact hrecord _ _ rfl h₁
  . next w₁ heq =>
    rw [heq] at h₁
    have h₂ := hemergency deadlock w₁ h₁
    split
    . next heq₂ =>
      rw [heq₂] at h₂
      exact h₂
    . next heq₂ =>
      rw [heq₂] at h₂
      exact hrecord _ _ rfl h₂

end World

end DeadlockInterceptor
