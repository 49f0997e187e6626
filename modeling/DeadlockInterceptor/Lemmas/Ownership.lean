import DeadlockInterceptor.Lemmas.Step

/-!
This module contains how `thread_locks` and `lock_owners` are related. `on_lock` gives the lock to its new
owner in both maps, but takes it from the last one in `lock_owners` only. The set of a thread thus is the
set of locks it ever acquired.
-/

namespace DeadlockInterceptor

namespace GlobalState

variable {s : GlobalState}

def OwnersAgree (s : GlobalState) : Prop := ∀ t a, s.Held t a ↔ s.owner a = some t

def KeepsOwner (s : GlobalState) (e : Event) : Prop :=
  e.call = .wake → junkAddr e.addr = false → ∀ u, s.owner e.addr = some u → u = s.nameOf e

theorem ownersAgree_init : init.OwnersAgree := by
  intro t a
  exact iff_of_false (USet.notMem_empty a) (by simp [Tracker.owner, init, Tracker.empty])

theorem ownersAgree_step_iff (hs : s.NoJunkWaiters) (h : s.OwnersAgree) (e : Event) :
    (s.step e).OwnersAgree ↔ s.KeepsOwner e := by
  unfold OwnersAgree
  obtain ⟨hcall, -, heq⟩ | ⟨hcall, ha, heq⟩ | ⟨ha, -, -, hl, ho⟩ := step_cases hs e
  . -- a wait acquires nothing
    simp only [heq, Tracker.onWait_held, Tracker.onWait_owner]
    exact iff_of_true h (by simp [KeepsOwner, hcall])
  . simp only [heq, Tracker.onLock_held, Tracker.onWake_held, Tracker.onLock_owner,
      Tracker.onWake_owner]
    constructor
    . intro h' _ _ u hu
      have hheld : s.Held u e.addr := (h u e.addr).mpr hu
      have hnew := (h' u e.addr).mp (.inr hheld)
      rw [if_pos rfl, Option.some.injEq] at hnew
      exact hnew.symm
    . intro hk t a
      split
      . next hae =>
        subst hae
        rw [h, Option.some.injEq]
        constructor
        . rintro (⟨rfl, -⟩ | ht)
          . rfl
          . exact (hk hcall ha t ht).symm
        . rintro rfl
          exact .inl ⟨rfl, rfl⟩
      . next hae =>
        simp only [hae, and_false, false_or]
        exact h t a
  . simp only [Tracker.Held, Tracker.owner, hl, ho]
    exact iff_of_true h (by simp [KeepsOwner, ha])

/--
The two maps agree in all states of a run exactly if no futex is woken by a thread that does not own it.
-/
theorem ownersAgree_run_iff (evs : List Event) :
    Run.States step OwnersAgree init evs ↔ Run.Steps step KeepsOwner init evs :=
  Run.states_iff_steps noJunkWaiters_step (fun _ e hs h => ownersAgree_step_iff hs h e)
    noJunkWaiters_init ownersAgree_init evs

theorem exists_heldTwice : ¬∀ evs, (run evs).OwnersAgree := by
  intro h
  have := (h [⟨.wake, 1, 0x10000, .bare⟩, ⟨.wake, 2, 0x10000, .bare⟩]
    (identifierOf ['t', 'h', 'r', 'e', 'a', 'd', '-', '1'] 1) 0x10000).mp (by decide)
  exact absurd this (by decide)

/--
What is left of the agreement in every run: a lock that a thread ever acquired has an owner, and its owner
has acquired it.
-/
structure OwnersHold (s : Tracker) : Prop where
  owner_of_held : ∀ t a, s.Held t a → ∃ u, s.owner a = some u
  held_of_owner : ∀ u a, s.owner a = some u → s.Held u a

theorem ownersHold_step (hs : s.NoJunkWaiters) (h : OwnersHold s.toTracker) (e : Event) :
    OwnersHold (s.step e).toTracker := by
  obtain ⟨-, -, heq⟩ | ⟨-, -, heq⟩ | ⟨-, -, -, hl, ho⟩ := step_cases hs e
  . rw [heq]
    constructor
    . intro t a ht
      rw [Tracker.onWait_held] at ht
      rw [Tracker.onWait_owner]
      exact h.owner_of_held t a ht
    . intro u a hu
      rw [Tracker.onWait_owner] at hu
      rw [Tracker.onWait_held]
      exact h.held_of_owner u a hu
  . rw [heq]
    constructor
    . intro t a ht
      rw [Tracker.onLock_held, Tracker.onWake_held] at ht
      rw [Tracker.onLock_owner, Tracker.onWake_owner]
      split
      . exact ⟨_, rfl⟩
      . next hae => exact h.owner_of_held t a (ht.resolve_left fun ht => hae ht.2)
    . intro u a hu
      rw [Tracker.onLock_owner, Tracker.onWake_owner] at hu
      rw [Tracker.onLock_held, Tracker.onWake_held]
      split at hu
      . next hae => exact .inl ⟨(Option.some.inj hu).symm, hae⟩
      . exact .inr (h.held_of_owner u a hu)
  . constructor
    . intro t a ht
      rw [Tracker.Held, hl] at ht
      rw [Tracker.owner, ho]
      exact h.owner_of_held t a ht
    . intro u a hu
      rw [Tracker.owner, ho] at hu
      rw [Tracker.Held, hl]
      exact h.held_of_owner u a hu

theorem ownersHold_init : OwnersHold init.toTracker :=
  ⟨fun _ a ht => absurd ht (USet.notMem_empty a), fun u a hu => by cases hu⟩

theorem ownersHold_run (evs : List Event) : OwnersHold (run evs).toTracker := by
  have hstep : ∀ (s : GlobalState) (e : Event), s.NoJunkWaiters ∧ OwnersHold s.toTracker →
      (s.step e).NoJunkWaiters ∧ OwnersHold (s.step e).toTracker := by
    rintro s e ⟨hs, h⟩
    exact ⟨noJunkWaiters_step s e hs, ownersHold_step hs h e⟩
  exact (Run.foldl_invariant hstep ⟨noJunkWaiters_init, ownersHold_init⟩ evs).2

end GlobalState

end DeadlockInterceptor
