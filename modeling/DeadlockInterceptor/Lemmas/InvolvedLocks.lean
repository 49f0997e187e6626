import DeadlockInterceptor.Impl.Monitoring
import DeadlockInterceptor.Impl.ThreadCycles
import DeadlockInterceptor.Graph.Cycle
import DeadlockInterceptor.Transition.Run
import Mathlib.Data.List.Rotate

/-!
This module contains which locks `find_locks_in_deadlock` returns for the vector of a deadlock. In the vector
each thread waits for the next one, so the next thread is the owner and the one before it the waiter. The
function takes the owner for the first one of the two.
-/

open DirectedGraph

namespace DeadlockInterceptor

def Consecutive (v : List ThreadName) (x y : ThreadName) : Prop :=
  ∃ (i : Nat) (h : i + 1 < v.length), v[i] = x ∧ v[i + 1] = y

def Follows (v : List ThreadName) (x y : ThreadName) : Prop :=
  ∃ (i : Nat) (h : i < v.length), v[i] = x ∧ succAt v i h = y

namespace findLocksInDeadlock

variable (s : Tracker) (pair : ThreadName × ThreadName)

theorem mem_addLocks (involvedLocks : List Addr) (a : Addr) :
    a ∈ addLocks s involvedLocks pair
      ↔
    a ∈ involvedLocks ∨ (s.owner a = some pair.1 ∧ pair.2 ∈ s.waiters a) := by
  refine (Run.foldl_iff_exists (I := fun _ => True) (C := (a ∈ ·))
    (P := fun entry => a = entry.1 ∧ entry.2 = pair.1 ∧ pair.2 ∈ s.waiters a)
    (fun _ _ _ => trivial) ?_ trivial _).trans (or_congr_right ?_)
  . intro l entry _
    split
    . next howner =>
      cases hw : s.futexWaiters.lookup entry.1 with
      | none =>
        simp only [iff_self_or]
        rintro ⟨rfl, -, hwait⟩
        simp [Tracker.waiters, AList.getD, hw] at hwait
      | some waiters =>
        have hwaiters : s.waiters entry.1 = waiters := by
          simp only [Tracker.waiters, AList.getD, hw, Option.getD_some]
        simp only
        split
        . next h =>
          rw [List.mem_append, List.mem_singleton]
          apply or_congr_right
          constructor
          . rintro rfl
            exact ⟨rfl, howner, hwaiters ▸ h.1⟩
          . exact fun h => h.1
        . next h =>
          rw [iff_self_or]
          rintro ⟨rfl, -, hwait⟩
          by_contra hnew
          exact h ⟨hwaiters ▸ hwait, hnew⟩
    . next howner =>
      rw [iff_self_or]
      rintro ⟨-, h, -⟩
      exact absurd h howner
  . constructor
    . rintro ⟨⟨b, o⟩, hentry, rfl, rfl, hwait⟩
      exact ⟨AList.mem_lookup_iff.mpr hentry, hwait⟩
    . rintro ⟨howner, hwait⟩
      exact ⟨⟨a, pair.1⟩, AList.mem_lookup_iff.mp howner, rfl, rfl, hwait⟩

theorem nodup_addLocks {involvedLocks : List Addr} (h : involvedLocks.Nodup) :
    (addLocks s involvedLocks pair).Nodup := by
  refine Run.foldl_invariant (I := List.Nodup) ?_ h _
  intro l entry hl
  split
  . split
    . split
      . next hnew =>
        rw [List.nodup_append]
        refine ⟨hl, List.nodup_singleton _, ?_⟩
        intro a ha b hb heq
        rw [List.mem_singleton] at hb
        subst heq hb
        exact hnew.2 ha
      . exact hl
    . exact hl
  . exact hl

theorem mem_zip_rotate_iff (v : List ThreadName) (x y : ThreadName) :
    (x, y) ∈ v.zip (v.rotate 1) ↔ Follows v x y := by
  rw [List.mem_iff_getElem]
  constructor
  . rintro ⟨i, hi, heq⟩
    rw [List.length_zip, List.length_rotate, Nat.min_self] at hi
    rw [List.getElem_zip, List.getElem_rotate, Prod.mk.injEq] at heq
    exact ⟨i, hi, heq⟩
  . rintro ⟨i, hi, rfl, rfl⟩
    refine ⟨i, ?_, ?_⟩
    . rwa [List.length_zip, List.length_rotate, Nat.min_self]
    . rw [List.getElem_zip, List.getElem_rotate]
      rfl

end findLocksInDeadlock

theorem mem_findLocksInDeadlock (s : Tracker) (v : List ThreadName) (a : Addr) :
    a ∈ findLocksInDeadlock s v ↔ ∃ x y, Follows v x y ∧ s.owner a = some x ∧ y ∈ s.waiters a := by
  rw [findLocksInDeadlock, Run.foldl_iff_exists (I := fun _ => True) (C := (a ∈ ·)) (fun _ _ _ => trivial)
    (fun l pair _ => findLocksInDeadlock.mem_addLocks s pair l a) trivial]
  simp only [List.not_mem_nil, false_or, Prod.exists, findLocksInDeadlock.mem_zip_rotate_iff]

theorem nodup_findLocksInDeadlock (s : Tracker) (v : List ThreadName) :
    (findLocksInDeadlock s v).Nodup := by
  refine Run.foldl_invariant ?_ .nil _
  intro l pair hl
  exact findLocksInDeadlock.nodup_addLocks s pair hl

/--
The result lists, once each, the locks on which a thread of the vector waits for the next one.
-/
structure FindsLocks (s : Tracker) (v : List ThreadName) : Prop where
  nodup : (findLocksInDeadlock s v).Nodup
  mem_iff : ∀ a, a ∈ findLocksInDeadlock s v ↔
    ∃ x y, Consecutive v x y ∧ s.owner a = some y ∧ x ∈ s.waiters a

/--
Each lock of a thread of the vector has among its waiters the thread that follows its owner in the vector
exactly if it has the thread before its owner.
-/
def WaitersBothSides (s : Tracker) (v : List ThreadName) : Prop :=
  ∀ a t, s.owner a = some t →
    ((∃ u, Follows v t u ∧ u ∈ s.waiters a) ↔ ∃ u, Consecutive v u t ∧ u ∈ s.waiters a)

theorem findsLocks_iff (s : Tracker) (v : List ThreadName) : FindsLocks s v ↔ WaitersBothSides s v := by
  constructor
  . intro h a t howner
    have hmem := (mem_findLocksInDeadlock s v a).symm.trans (h.mem_iff a)
    constructor
    . rintro ⟨u, hfollows, hwait⟩
      obtain ⟨x, y, hxy, hy, hx⟩ := hmem.mp ⟨t, u, hfollows, howner, hwait⟩
      rw [howner, Option.some.injEq] at hy
      subst hy
      exact ⟨x, hxy, hx⟩
    . rintro ⟨u, hconsecutive, hwait⟩
      obtain ⟨x, y, hxy, hx, hy⟩ := hmem.mpr ⟨u, t, hconsecutive, howner, hwait⟩
      rw [howner, Option.some.injEq] at hx
      subst hx
      exact ⟨y, hxy, hy⟩
  . intro h
    refine ⟨nodup_findLocksInDeadlock s v, ?_⟩
    intro a
    rw [mem_findLocksInDeadlock]
    constructor
    . rintro ⟨x, y, hxy, howner, hwait⟩
      obtain ⟨u, hu, hwaitu⟩ := (h a x howner).mp ⟨y, hxy, hwait⟩
      exact ⟨u, x, hu, howner, hwaitu⟩
    . rintro ⟨x, y, hxy, howner, hwait⟩
      obtain ⟨u, hu, hwaitu⟩ := (h a y howner).mpr ⟨x, hxy, hwait⟩
      exact ⟨y, u, hu, howner, hwaitu⟩

section pair

variable {t u : ThreadName}

theorem follows_pair_iff (x y : ThreadName) :
    Follows [t, u, t] x y ↔ (x = t ∧ y = u) ∨ (x = u ∧ y = t) ∨ (x = t ∧ y = t) := by
  rw [← findLocksInDeadlock.mem_zip_rotate_iff]
  simp [List.rotate]

theorem consecutive_pair_iff (x y : ThreadName) :
    Consecutive [t, u, t] x y ↔ (x = t ∧ y = u) ∨ (x = u ∧ y = t) := by
  constructor
  . rintro ⟨i, hi, rfl, rfl⟩
    have hcases : i = 0 ∨ i = 1 := by
      simp only [List.length_cons, List.length_nil] at hi
      omega
    rcases hcases with rfl | rfl
    . exact .inl ⟨rfl, rfl⟩
    . exact .inr ⟨rfl, rfl⟩
  . rintro (⟨rfl, rfl⟩ | ⟨rfl, rfl⟩)
    . exact ⟨0, by simp, rfl, rfl⟩
    . exact ⟨1, by simp, rfl, rfl⟩

theorem findsLocks_pair_iff (htu : t ≠ u) (s : Tracker) :
    FindsLocks s [t, u, t] ↔ ∀ a, s.owner a = some t → t ∈ s.waiters a → u ∈ s.waiters a := by
  rw [findsLocks_iff]
  simp only [WaitersBothSides, follows_pair_iff, consecutive_pair_iff]
  constructor
  . intro h a howner hself
    obtain ⟨w, hside, hw⟩ := (h a t howner).mp ⟨t, .inr (.inr ⟨rfl, rfl⟩), hself⟩
    rcases hside with ⟨-, heq⟩ | ⟨rfl, -⟩
    . exact absurd heq htu
    . exact hw
  . intro h a o howner
    constructor
    . rintro ⟨w, ⟨rfl, rfl⟩ | ⟨rfl, rfl⟩ | ⟨rfl, rfl⟩, hw⟩
      . exact ⟨w, .inr ⟨rfl, rfl⟩, hw⟩
      . exact ⟨w, .inl ⟨rfl, rfl⟩, hw⟩
      . exact ⟨u, .inr ⟨rfl, rfl⟩, h a howner hw⟩
    . rintro ⟨w, ⟨rfl, rfl⟩ | ⟨rfl, rfl⟩, hw⟩
      . exact ⟨w, .inr (.inl ⟨rfl, rfl⟩), hw⟩
      . exact ⟨w, .inl ⟨rfl, rfl⟩, hw⟩

end pair

def ring : GlobalState :=
  .run [⟨.wake, 1, 0x10000, .bare⟩, ⟨.wake, 2, 0x10010, .bare⟩, ⟨.wake, 3, 0x10020, .bare⟩,
    ⟨.wait, 1, 0x10010, .bare⟩, ⟨.wait, 2, 0x10020, .bare⟩, ⟨.wait, 3, 0x10000, .bare⟩]

theorem exists_overlooked : ¬∀ (s : Tracker) (root : ThreadName),
    (dfsDeadlock s.waitsFor root .fresh).1 = true →
      FindsLocks s (dfsDeadlock s.waitsFor root .fresh).2.cycle.reverse := by
  intro h
  have hring := h ring.toTracker (identifierOf ['t', 'h', 'r', 'e', 'a', 'd', '-', '1'] 1) (by decide)
  have hnone : findLocksInDeadlock ring.toTracker (dfsDeadlock ring.waitsFor
      (identifierOf ['t', 'h', 'r', 'e', 'a', 'd', '-', '1'] 1) .fresh).2.cycle.reverse = [] := by decide
  have hmem := (hring.mem_iff 0x10010).mpr
    ⟨identifierOf ['t', 'h', 'r', 'e', 'a', 'd', '-', '1'] 1,
      identifierOf ['t', 'h', 'r', 'e', 'a', 'd', '-', '2'] 2,
      ⟨0, by decide, by decide, by decide⟩, by decide, by decide⟩
  rw [hnone] at hmem
  exact List.not_mem_nil hmem

end DeadlockInterceptor
