import DeadlockInterceptor.Lemmas.GroupResolutions

/-!
This module contains whose locks the resolution of a deadlock of groups overwrites. It takes all the locks in
the sets of the threads of the groups, and a set also has the locks that another thread owns by now.
-/

open Relation DirectedGraph

namespace DeadlockInterceptor

/--
In every iteration order the locks that are overwritten are owned by threads of the reported groups.
-/
def SparesOthers (s : Tracker) : Prop :=
  ∀ s', s.Same s' → ∀ ho info, detectGroupDeadlock ho s' = .ok info → 2 ≤ info.groupCycle.length →
    ∀ a ∈ info.allLocks ho, ∃ u, s.owner a = some u ∧
      ∃ group ∈ analyzeConflictGroups s', group.groupId ∈ info.groupCycle ∧ u ∈ group.threads

/--
A thread that has a lock of another owner in its set shares locks with the same third threads as that owner.
-/
def OwnersTogether (s : Tracker) : Prop :=
  ∀ t u a, s.Held t a → s.owner a = some u → u ≠ t →
    ∀ c, c ≠ t → c ≠ u → (Shares s c t ↔ Shares s c u)

variable {s : Tracker}

theorem sparesOthers_of_together (hown : GlobalState.OwnersHold s) (h : OwnersTogether s) : SparesOthers s := by
  intro s' hsame ho info hinfo hlength a ha
  obtain ⟨i, hi, t, hfind, ht'⟩ := ((detectGroupDeadlock_spec hinfo hlength).2 a).mp ha
  have ht := (hsame.held t a).mp ht'
  obtain ⟨u, hu⟩ := hown.owner_of_held t a ht
  have hfind_u : findGroup (analyzeConflictGroups s') u = some i := by
    by_cases htu : u = t
    . rwa [htu]
    . have hshares : Shares s' t u := (hsame.shares_iff t u).mpr ⟨a, ht, hown.held_of_owner u a hu⟩
      rw [findGroup_analyze] at hfind ⊢
      rw [← hfind]
      symm
      apply Grouping.lookup_eq_of_shares hshares
      intro c hct hcu
      rw [hsame.shares_iff, hsame.shares_iff]
      exact h t u a ht hu htu c hct hcu
  obtain ⟨group, hgroup, rfl, hmem⟩ := findGroup_eq_some_iff.mp hfind_u
  exact ⟨u, hu, group, hgroup, hi, hmem⟩

/--
If `c` shares a lock with one of `t` and `u` only and is visited first, then these two are in different groups,
and the owner `u` of the lock of `t` has nothing to do with a deadlock of `t` and a fourth thread.
-/
theorem together_of_sparesOthers (hparses : ∀ t ∈ s.threadLocks, Parses t) (hown : GlobalState.OwnersHold s)
    (h : ∀ waitsFor, SparesOthers { s with waitsFor := waitsFor }) : OwnersTogether s := by
  intro t u a ht hu htu c hct hcu
  by_contra hiff
  have hc : c ∈ s.threadLocks := by
    by_contra hc
    apply hiff
    apply iff_of_false
    . rintro ⟨b, hb, -⟩
      exact hc hb.mem
    . rintro ⟨b, hb, -⟩
      exact hc hb.mem
  obtain ⟨x, i, k, info, hx, hdetour, hinfo, hlength⟩ :=
    exists_reported_detour (p := t) (q := t) hparses hc ht.mem fun _ => rfl
  let s1 : Tracker := { s with waitsFor := .detour t x t }
  have hsame : s1.Same (s1.holderFirst c) := Tracker.same_holderFirst hc
  have hne : findGroup (analyzeConflictGroups (s1.holderFirst c)) t
      ≠ findGroup (analyzeConflictGroups (s1.holderFirst c)) u := findGroup_holderFirst_ne hc hct hcu hiff
  obtain ⟨hcyc, hlocks⟩ := detectGroupDeadlock_spec hinfo hlength
  obtain ⟨hi, honly⟩ := hdetour.mem_of_isCycle hcyc
  have ha : a ∈ info.allLocks ⟨default, default, default⟩ :=
    (hlocks a).mpr ⟨i, hi, t, hdetour.group_p, (hsame.held t a).mpr ht⟩
  obtain ⟨u', hu', group, hgroup, hcycle, hgroup_u⟩ :=
    h (.detour t x t) _ hsame _ info hinfo hlength a ha
  have hueq : u' = u := Option.some.inj (hu'.symm.trans hu)
  rw [hueq] at hgroup_u
  have hfind_u := findGroup_eq_some_iff.mpr ⟨group, hgroup, rfl, hgroup_u⟩
  rcases honly _ hcycle with heq | heq
  . -- the group of `t`
    apply hne
    rw [hdetour.group_p, hfind_u, heq]
  . -- the group of `x`, who holds nothing
    rw [heq] at hfind_u
    rw [hdetour.eq_of_group hfind_u] at hu
    exact hx (hown.held_of_owner x a hu).mem

namespace GlobalState

/--
After every run: if each lock in the set of a thread that is not its owner has an owner with the same sharers,
then the resolution of a deadlock of groups spares the threads outside of it, for whatever waits there are. No
weaker condition on who holds and owns what would do.
-/
theorem sparesOthers_run_iff (evs : List Event) :
    (OwnersTogether (run evs).toTracker →
      ∀ waitsFor, SparesOthers { (run evs).toTracker with waitsFor := waitsFor }) ∧
    ((∀ t ∈ (run evs).threadLocks, Parses t) →
      ((∀ waitsFor, SparesOthers { (run evs).toTracker with waitsFor := waitsFor })
        ↔
        OwnersTogether (run evs).toTracker)) := by
  have hown := ownersHold_run evs
  have hsufficient : OwnersTogether (run evs).toTracker →
      ∀ waitsFor, SparesOthers { (run evs).toTracker with waitsFor := waitsFor } := by
    intro h waitsFor
    apply sparesOthers_of_together
    . exact ⟨hown.owner_of_held, hown.held_of_owner⟩
    . exact h
  refine ⟨hsufficient, ?_⟩
  intro hparses
  exact ⟨together_of_sparesOthers hparses hown, hsufficient⟩

/--
The lock 0x10020 went from 1 to 5. Thread 1 is grouped with 0 by another lock, and 0 and 9 wait for each
other's groups.
-/
def bystanderRun : List Event :=
  [⟨.wake, 0, 0x10000, .bare⟩, ⟨.wake, 1, 0x10000, .bare⟩, ⟨.wake, 1, 0x10020, .bare⟩,
    ⟨.wake, 5, 0x10020, .bare⟩, ⟨.wake, 9, 0x10010, .bare⟩, ⟨.wait, 0, 0x10010, .bare⟩,
    ⟨.wait, 9, 0x10000, .bare⟩]

theorem exists_bystander : ¬∀ evs, SparesOthers (run evs).toTracker := by
  intro h
  have hsame := Tracker.same_holderFirst (s := (run bystanderRun).toTracker)
    (c := identifierOf ['t', 'h', 'r', 'e', 'a', 'd', '-', '0'] 0) (by decide)
  obtain ⟨u, hu, group, hgroup, hid, hmem⟩ := h bystanderRun _ hsame ⟨default, default, default⟩ _ rfl
    (by decide) 0x10020 (by decide)
  have howner : (run bystanderRun).toTracker.owner 0x10020
      = some (identifierOf ['t', 'h', 'r', 'e', 'a', 'd', '-', '5'] 5) := by decide
  rw [howner, Option.some.injEq] at hu
  subst hu
  revert group
  decide

end GlobalState

end DeadlockInterceptor
