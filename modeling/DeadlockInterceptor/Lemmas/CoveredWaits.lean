import DeadlockInterceptor.Lemmas.ExpandCycle
import DeadlockInterceptor.Lemmas.GroupResolutions

/-!
This module contains when the conflicts between groups cover the waits between groups. A wait is recorded for the
owner of that moment, a conflict is computed from the owners of now.
-/

namespace DeadlockInterceptor

def ThreadsConflict (s : Tracker) (t u : ThreadName) : Prop :=
  ∃ a w, s.owner a = some w ∧ ((s.Held t a ∧ s.Waits u w) ∨ (s.Waits t w ∧ s.Held u a))

/--
In every iteration order a group conflicts with the other groups its threads wait for.
-/
def ConflictsCoverWaits (s : Tracker) : Prop :=
  ∀ s', s.Same s' → ∀ i j t u, i ≠ j → InGroup s' i t → InGroup s' j u → s'.Waits t u →
    ListsConflict (analyzeConflictGroups s') i j

theorem ThreadsConflict.locksConflict {s : Tracker} {t u : ThreadName} (h : ThreadsConflict s t u) {i j : Nat}
    (ht : InGroup s i t) (hu : InGroup s j u) : LocksConflict (analyzeConflictGroups s) i j := by
  obtain ⟨a, w, howner, hlocks⟩ := h
  obtain ⟨group, hgroup, ht⟩ := ht
  obtain ⟨other, hother, hu⟩ := hu
  refine ⟨group, other, hgroup, hother, ?_⟩
  have hgroup' := List.mem_of_getElem? hgroup
  have hother' := List.mem_of_getElem? hother
  rcases hlocks with ⟨hheld, hwaits⟩ | ⟨hwaits, hheld⟩
  . left
    exact ⟨a, (mem_locksHeld_analyze hgroup').mpr ⟨t, ht, hheld⟩,
      (mem_locksWanted_analyze hother').mpr ⟨u, hu, w, hwaits, howner⟩⟩
  . right
    exact ⟨a, (mem_locksWanted_analyze hgroup').mpr ⟨t, ht, w, hwaits, howner⟩,
      (mem_locksHeld_analyze hother').mpr ⟨u, hu, hheld⟩⟩

theorem Tracker.Same.threadsConflict_iff {s s' : Tracker} (h : s.Same s') (t u : ThreadName) :
    ThreadsConflict s' t u ↔ ThreadsConflict s t u := by
  simp only [ThreadsConflict, h.owner, h.held, h.waits_eq]

theorem conflictsCoverWaits_of_threads {s : Tracker} (h : ∀ t u, s.Waits t u → ThreadsConflict s t u) :
    ConflictsCoverWaits s := by
  intro s' hsame i j t u hij ht hu hwaits
  rw [listsConflict_analyze]
  refine ⟨hij, ThreadsConflict.locksConflict ?_ ht hu⟩
  rw [hsame.threadsConflict_iff]
  apply h
  rwa [← hsame.waits_eq]

namespace GlobalState

def WaitsConflict (s : GlobalState) : Prop := ∀ t u, s.Waits t u → ThreadsConflict s.toTracker t u

/--
The event is no wake by which the conflict of a thread with one it goes on to wait for is lost. Of the locks that
witness a conflict the woken one drops out, and so do those of the thread that wakes, for nobody waits for it
any more.
-/
def KeepsConflicts (s : GlobalState) (e : Event) : Prop :=
  e.call = .wake → junkAddr e.addr = false → ∀ t u, s.Waits t u → u ≠ s.nameOf e →
    ∃ a w, a ≠ e.addr ∧ w ≠ s.nameOf e ∧ s.owner a = some w ∧
      ((s.Held t a ∧ s.Waits u w) ∨ (s.Waits t w ∧ s.Held u a))

theorem waitsConflict_init : init.WaitsConflict := by
  intro t u h
  exact absurd h (USet.notMem_empty u)

theorem waitsConflict_step_iff {s : GlobalState} (hs : s.NoJunkWaiters ∧ OwnersHold s.toTracker)
    (h : s.WaitsConflict) (e : Event) : (s.step e).WaitsConflict ↔ s.KeepsConflicts e := by
  obtain ⟨hs, hown⟩ := hs
  obtain ⟨hcall, -, heq⟩ | ⟨hcall, ha, heq⟩ | ⟨ha, -, hw, hl, ho⟩ := step_cases hs e
  . -- the new edge is to the owner of the lock
    apply iff_of_true
    . intro t u htu
      have hle : ∀ x y, s.Waits x y → (s.step e).Waits x y := by
        intro x y hxy
        rw [heq, Tracker.onWait_waits]
        exact .inl hxy
      have hnew := htu
      rw [heq, Tracker.onWait_waits] at hnew
      simp only [ThreadsConflict, heq, Tracker.onWait_owner, Tracker.onWait_held]
      rw [heq] at hle htu
      rcases hnew with hold | ⟨-, howner, -⟩
      . obtain ⟨a, w, haw, ⟨hheld, hwaits⟩ | ⟨hwaits, hheld⟩⟩ := h t u hold
        . exact ⟨a, w, haw, .inl ⟨hheld, hle u w hwaits⟩⟩
        . exact ⟨a, w, haw, .inr ⟨hle t w hwaits, hheld⟩⟩
      . exact ⟨e.addr, u, howner, .inr ⟨htu, hown.held_of_owner u e.addr howner⟩⟩
    . intro hwake
      rw [hcall] at hwake
      cases hwake
  . simp only [WaitsConflict, ThreadsConflict, heq, Tracker.onLock_waits, Tracker.onWake_waits,
      Tracker.onLock_owner, Tracker.onWake_owner, Tracker.onLock_held, Tracker.onWake_held]
    constructor
    . intro h' _ _ t u htu hu
      obtain ⟨a, w, howner, hlocks⟩ := h' t u ⟨hu, htu⟩
      have hw : w ≠ s.nameOf e := by
        rcases hlocks with ⟨-, hw, -⟩ | ⟨⟨hw, -⟩, -⟩
        . exact hw
        . exact hw
      have hne : a ≠ e.addr := by
        rintro rfl
        rw [if_pos rfl, Option.some.injEq] at howner
        exact hw howner.symm
      rw [if_neg hne] at howner
      refine ⟨a, w, hne, hw, howner, ?_⟩
      rcases hlocks with ⟨hheld, -, hwaits⟩ | ⟨⟨-, hwaits⟩, hheld⟩
      . exact .inl ⟨hheld.resolve_left fun h => hne h.2, hwaits⟩
      . exact .inr ⟨hwaits, hheld.resolve_left fun h => hne h.2⟩
    . rintro hk t u ⟨hu, htu⟩
      obtain ⟨a, w, hne, hw, howner, hlocks⟩ := hk hcall ha t u htu hu
      refine ⟨a, w, ?_, ?_⟩
      . rwa [if_neg hne]
      . rcases hlocks with ⟨hheld, hwaits⟩ | ⟨hwaits, hheld⟩
        . exact .inl ⟨.inr hheld, hw, hwaits⟩
        . exact .inr ⟨⟨hw, hwaits⟩, .inr hheld⟩
  . apply iff_of_true
    . simp only [WaitsConflict, ThreadsConflict, Tracker.Waits, Tracker.Held, Tracker.owner, hw, hl, ho]
      exact h
    . intro _ hplausible
      rw [ha] at hplausible
      cases hplausible

theorem waitsConflict_run_iff (evs : List Event) :
    Run.States step WaitsConflict init evs ↔ Run.Steps step KeepsConflicts init evs := by
  apply Run.states_iff_steps (J := fun s => s.NoJunkWaiters ∧ OwnersHold s.toTracker)
  . rintro s e ⟨hs, hown⟩
    exact ⟨noJunkWaiters_step s e hs, ownersHold_step hs hown e⟩
  . intro s e hs h
    exact waitsConflict_step_iff hs h e
  . exact ⟨noJunkWaiters_init, ownersHold_init⟩
  . exact waitsConflict_init

/--
In a run in which no wake ends the conflict of a thread with one it goes on to wait for, the conflicts of the
groups cover the waits in every state.
-/
theorem conflictsCoverWaits_run (evs : List Event) (h : Run.Steps step KeepsConflicts init evs) :
    Run.States step (fun s => ConflictsCoverWaits s.toTracker) init evs := by
  apply Run.States.imp _ ((waitsConflict_run_iff evs).mpr h)
  intro s hs
  exact conflictsCoverWaits_of_threads hs

theorem conflictsCoverWaits_run_deadlock :
    Run.States step (fun s => ConflictsCoverWaits s.toTracker) init
      [⟨.wake, 1, 0x10000, .bare⟩, ⟨.wake, 2, 0x10010, .bare⟩, ⟨.wait, 1, 0x10010, .bare⟩,
        ⟨.wait, 2, 0x10000, .bare⟩] := by
  apply conflictsCoverWaits_run
  refine ⟨?_, ?_, ?_, ?_, trivial⟩
  . intro _ _ t u h
    exact absurd h (USet.notMem_empty u)
  . intro _ _ t u h
    exact absurd h (USet.notMem_empty u)
  . intro h
    cases h
  . intro h
    cases h

/--
Thread 2 waits for 1, and 3 takes the only lock of 1. The group of 1 and 3 then is not known to have a lock that
2 wants, as 1 owns none.
-/
def staleWaitRun : List Event :=
  [⟨.wake, 1, 0x10000, .bare⟩, ⟨.wait, 2, 0x10000, .bare⟩, ⟨.wake, 3, 0x10000, .bare⟩]

theorem exists_uncoveredWait : ¬∀ evs, ConflictsCoverWaits (run evs).toTracker := by
  intro h
  let thread : Char → Pid → ThreadName := fun c tid =>
    identifierOf ['t', 'h', 'r', 'e', 'a', 'd', '-', c] tid
  have hconflict := h staleWaitRun _ (.refl _) 1 0 (thread '2' 2) (thread '1' 1) (by decide)
    (inGroup_iff.mpr (by decide)) (inGroup_iff.mpr (by decide)) (by decide)
  obtain ⟨group, hgroup, hmem⟩ := hconflict
  have hnone : ∀ group ∈ analyzeConflictGroups (run staleWaitRun).toTracker,
      0 ∉ group.conflictingGroups := by decide
  exact hnone group (List.mem_of_getElem? hgroup) hmem

end GlobalState

end DeadlockInterceptor
