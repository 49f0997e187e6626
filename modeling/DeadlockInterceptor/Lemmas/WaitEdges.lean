import DeadlockInterceptor.Lemmas.Step
import DeadlockInterceptor.Graph.Cycle

/-!
This module relates the edges of the wait-for graph to the waits the tracker knows of: the pairs of a
registered waiter of a futex and the owner of that futex. `on_lock` drops the edges into the acquiring
thread, whatever it acquired, and keeps the edges out of it, so neither side covers the other.
-/

open Relation DirectedGraph

namespace DeadlockInterceptor

namespace GlobalState

variable {s : GlobalState}

def NoMissedWait (s : GlobalState) : Prop :=
  ∀ t a u, t ∈ s.waiters a → s.owner a = some u → u ≠ t → s.Waits t u

def KeepsWaits (s : GlobalState) (e : Event) : Prop :=
  e.call = .wake → junkAddr e.addr = false →
    ∀ t a, a ≠ e.addr → t ∈ s.waiters a → s.owner a = some (s.nameOf e) → t = s.nameOf e

theorem noMissedWait_init : init.NoMissedWait := by
  intro t a u ht
  exact absurd ht List.not_mem_nil

theorem noMissedWait_step_iff (hs : s.NoJunkWaiters) (h : s.NoMissedWait) (e : Event) :
    (s.step e).NoMissedWait ↔ s.KeepsWaits e := by
  unfold NoMissedWait
  obtain ⟨hcall, -, heq⟩ | ⟨hcall, ha, heq⟩ | ⟨ha, hw, hf, -, ho⟩ := step_cases hs e
  . -- a wait registers the thread and adds the edge that goes with it
    simp only [heq, Tracker.onWait_waiters, Tracker.onWait_owner, Tracker.onWait_waits]
    refine iff_of_true ?_ (by simp [KeepsWaits, hcall])
    intro t a u ht hu hne
    split at ht
    . next hae =>
      subst hae
      rw [List.mem_append, List.mem_singleton] at ht
      rcases ht with ht | rfl
      . exact .inl (h t _ u ht hu hne)
      . exact .inr ⟨rfl, hu, hne⟩
    . exact .inl (h t a u ht hu hne)
  . simp only [heq, Tracker.onLock_waiters, Tracker.onWake_waiters, Tracker.onLock_owner,
      Tracker.onWake_owner, Tracker.onLock_waits, Tracker.onWake_waits, List.mem_filter,
      decide_eq_true_eq]
    constructor
    . intro h' _ _ t a hae ht hu
      by_contra hne
      have := h' t a (s.nameOf e) ⟨by simp [hae, ht], hne⟩ (by simp [hae, hu]) (Ne.symm hne)
      exact this.1 rfl
    . rintro hk t a u ⟨ht, hte⟩ hu hne
      split at ht
      . exact absurd ht List.not_mem_nil
      . next hae =>
        simp only [hae, ↓reduceIte] at hu
        refine ⟨?_, h t a u ht hu hne⟩
        rintro rfl
        exact hte (hk hcall ha t a hae ht hu)
  . have howner : ∀ a, (s.step e).owner a = s.owner a := fun a => by simp [Tracker.owner, ho]
    have hwaits : ∀ x u, (s.step e).Waits x u ↔ s.Waits x u := fun x u => by simp [Tracker.Waits, hf]
    simp only [hw, howner, hwaits]
    exact iff_of_true h (by simp [KeepsWaits, ha])

/--
The states of a run miss no wait exactly as long as no thread does a wake while it owns some other
futex on which somebody waits.
-/
theorem noMissedWait_run_iff (evs : List Event) :
    Run.States step NoMissedWait init evs ↔ Run.Steps step KeepsWaits init evs :=
  Run.states_iff_steps noJunkWaiters_step (fun _ e hs h => noMissedWait_step_iff hs h e)
    noJunkWaiters_init noMissedWait_init evs

theorem exists_missedWait : ¬∀ evs, (run evs).NoMissedWait := by
  intro h
  have := h [⟨.wake, 1, 0x10000, .bare⟩, ⟨.wait, 2, 0x10000, .bare⟩, ⟨.wake, 1, 0x10010, .bare⟩]
    (identifierOf ['t', 'h', 'r', 'e', 'a', 'd', '-', '2'] 2) 0x10000
    (identifierOf ['t', 'h', 'r', 'e', 'a', 'd', '-', '1'] 1) (by decide) (by decide) (by decide)
  exact absurd this (by decide)

def Backed (s : GlobalState) (x u : ThreadName) : Prop :=
  ∃ a, x ∈ s.waiters a ∧ s.owner a = some u

def NoFalseAlarm (s : GlobalState) : Prop :=
  ∀ cyc, IsCycle s.Waits cyc → ∀ (i : Nat) (h : i < cyc.length),
    s.Backed cyc[i] (succAt cyc i h)

/--
The event closes no circular wait over an outdated edge. A wait of `t` for a futex of `u` must find
all other edges on the ways from `u` back to `t` current. A wake by `t` must leave the circular waits
that do not pass through `t` with edges that are current because of other futexes than the woken one.
-/
def ClosesCurrent (s : GlobalState) (e : Event) : Prop :=
  junkAddr e.addr = false →
    match e.call with
    | .wait =>
      ∀ u, s.owner e.addr = some u → u ≠ s.nameOf e →
        ∀ x y, s.Waits x y → ReflTransGen s.Waits u x → ReflTransGen s.Waits y (s.nameOf e) →
          (x = s.nameOf e ∧ y = u) ∨ s.Backed x y
    | .wake =>
      ∀ x y, y ≠ s.nameOf e → s.Waits x y →
        ReflTransGen (fun p q => q ≠ s.nameOf e ∧ s.Waits p q) y x →
          ∃ a, a ≠ e.addr ∧ x ∈ s.waiters a ∧ s.owner a = some y

theorem noFalseAlarm_iff :
    s.NoFalseAlarm ↔ ∀ x y, s.Waits x y → ReflTransGen s.Waits y x → s.Backed x y :=
  forall_isCycle_iff

theorem noFalseAlarm_init : init.NoFalseAlarm := by
  rw [noFalseAlarm_iff]
  intro x y h
  exact absurd h (USet.notMem_empty y)

section wait

variable {e : Event}
  (heq : (s.step e).toTracker = s.toTracker.onWait e.env.now (s.nameOf e) e.addr)

include heq in
theorem backed_step_wait_iff {x y : ThreadName} :
    (s.step e).Backed x y ↔ s.Backed x y ∨ (x = s.nameOf e ∧ s.owner e.addr = some y) := by
  simp only [Backed, heq, Tracker.onWait_waiters, Tracker.onWait_owner]
  constructor
  . rintro ⟨a, hx, hy⟩
    split at hx
    . next hae =>
      subst hae
      rw [List.mem_append, List.mem_singleton] at hx
      rcases hx with hx | rfl
      . exact .inl ⟨_, hx, hy⟩
      . exact .inr ⟨rfl, hy⟩
    . exact .inl ⟨a, hx, hy⟩
  . rintro (⟨a, hx, hy⟩ | ⟨rfl, hy⟩)
    . refine ⟨a, ?_, hy⟩
      split
      . next hae =>
        subst hae
        exact List.mem_append_left _ hx
      . exact hx
    . exact ⟨e.addr, by simp, hy⟩

include heq in
theorem waits_step_wait_iff {u : ThreadName} (howner : s.owner e.addr = some u) (hne : u ≠ s.nameOf e)
    (x y : ThreadName) : (s.step e).Waits x y ↔ s.Waits x y ∨ (x = s.nameOf e ∧ y = u) := by
  rw [heq, Tracker.onWait_waits, howner]
  constructor
  . rintro (h | ⟨rfl, h, -⟩)
    . exact .inl h
    . exact .inr ⟨rfl, (Option.some.inj h).symm⟩
  . rintro (h | ⟨rfl, rfl⟩)
    . exact .inl h
    . exact .inr ⟨rfl, rfl, hne⟩

include heq in
theorem waits_step_wait_eq (hnone : ¬∃ u, s.owner e.addr = some u ∧ u ≠ s.nameOf e) :
    (s.step e).Waits = s.Waits := by
  funext x y
  apply propext
  rw [heq, Tracker.onWait_waits]
  constructor
  . rintro (h | ⟨-, h1, h2⟩)
    . exact h
    . exact absurd ⟨y, h1, h2⟩ hnone
  . exact .inl

include heq in
theorem noFalseAlarm_step_wait_iff (h : s.NoFalseAlarm) :
    (s.step e).NoFalseAlarm ↔
      ∀ u, s.owner e.addr = some u → u ≠ s.nameOf e →
        ∀ x y, s.Waits x y → ReflTransGen s.Waits u x → ReflTransGen s.Waits y (s.nameOf e) →
          (x = s.nameOf e ∧ y = u) ∨ s.Backed x y := by
  rw [noFalseAlarm_iff] at h
  rw [noFalseAlarm_iff]
  simp only [backed_step_wait_iff heq]
  by_cases hu : ∃ u, s.owner e.addr = some u ∧ u ≠ s.nameOf e
  . -- the new edge leads to `u`, so the new closed walks go from `u` back to the waiting thread
    obtain ⟨u, howner, hne⟩ := hu
    have hw := waits_step_wait_iff heq howner hne
    constructor
    . intro h' u' hu' _ x y hxy hux hyt
      have huu : u' = u := by
        rw [howner] at hu'
        exact (Option.some.inj hu').symm
      subst huu
      have hback := h' x y ((hw x y).mpr (.inl hxy))
        ((reflTransGen_addEdge_iff hw).mpr (.inr ⟨hyt, hux⟩))
      rcases hback with hb | ⟨rfl, hy⟩
      . exact .inr hb
      . rw [howner] at hy
        exact .inl ⟨rfl, (Option.some.inj hy).symm⟩
    . intro hp x y hxy hyx
      rcases (hw x y).mp hxy with hold | ⟨rfl, rfl⟩
      . rcases (reflTransGen_addEdge_iff hw).mp hyx with hyx | ⟨hyt, hux⟩
        . exact .inl (h x y hold hyx)
        . rcases hp u howner hne x y hold hux hyt with ⟨rfl, rfl⟩ | hb
          . exact .inr ⟨rfl, howner⟩
          . exact .inl hb
      . exact .inr ⟨rfl, howner⟩
  . -- no edge is added
    have hw := waits_step_wait_eq heq hu
    apply iff_of_true
    . intro x y hxy hyx
      rw [hw] at hxy hyx
      exact .inl (h x y hxy hyx)
    . intro u h1 h2
      exact absurd ⟨u, h1, h2⟩ hu

end wait

theorem noFalseAlarm_step_wake_iff {e : Event}
    (heq : (s.step e).toTracker
      = (s.toTracker.onWake e.addr).onLock e.env.now (s.nameOf e) e.addr) :
    (s.step e).NoFalseAlarm ↔
      ∀ x y, y ≠ s.nameOf e → s.Waits x y →
        ReflTransGen (fun p q => q ≠ s.nameOf e ∧ s.Waits p q) y x →
          ∃ a, a ≠ e.addr ∧ x ∈ s.waiters a ∧ s.owner a = some y := by
  have hw : (s.step e).Waits = fun p q => q ≠ s.nameOf e ∧ s.Waits p q := by
    funext p q
    rw [heq, Tracker.onLock_waits, Tracker.onWake_waits]
  rw [noFalseAlarm_iff, hw]
  simp only [Backed, heq, Tracker.onLock_waiters, Tracker.onWake_waiters, Tracker.onLock_owner,
    Tracker.onWake_owner, List.mem_filter, decide_eq_true_eq]
  constructor
  . intro h x y hy hxy hyx
    obtain ⟨a, ⟨ha, -⟩, howner⟩ := h x y ⟨hy, hxy⟩ hyx
    split at ha
    . exact absurd ha List.not_mem_nil
    . next hae => exact ⟨a, hae, ha, by simpa [hae] using howner⟩
  . rintro h x y ⟨hy, hxy⟩ hyx
    obtain ⟨a, hae, ha, howner⟩ := h x y hy hxy hyx
    exact ⟨a, ⟨by simpa [hae] using ha, ne_of_reflTransGen_avoiding hyx hy⟩,
      by simpa [hae] using howner⟩

theorem noFalseAlarm_step_iff (hs : s.NoJunkWaiters) (h : s.NoFalseAlarm) (e : Event) :
    (s.step e).NoFalseAlarm ↔ s.ClosesCurrent e := by
  unfold ClosesCurrent
  obtain ⟨hcall, ha, heq⟩ | ⟨hcall, ha, heq⟩ | ⟨ha, hw, hf, -, ho⟩ := step_cases hs e
  . rw [noFalseAlarm_step_wait_iff heq h]
    simp [hcall, ha]
  . rw [noFalseAlarm_step_wake_iff heq]
    simp [hcall, ha]
  . have howner : ∀ a, (s.step e).owner a = s.owner a := fun a => by simp [Tracker.owner, ho]
    have hwaits : (s.step e).Waits = s.Waits := by
      funext x u
      simp [Tracker.Waits, hf]
    refine iff_of_true ?_ (by simp [ha])
    rw [noFalseAlarm_iff] at h ⊢
    simpa only [Backed, hw, howner, hwaits] using h

/--
The cycles of a run are made of current waits exactly as long as no event closes a circular wait over
an outdated edge.
-/
theorem noFalseAlarm_run_iff (evs : List Event) :
    Run.States step NoFalseAlarm init evs ↔ Run.Steps step ClosesCurrent init evs :=
  Run.states_iff_steps noJunkWaiters_step (fun _ e hs h => noFalseAlarm_step_iff hs h e)
    noJunkWaiters_init noFalseAlarm_init evs

/--
Thread 2 waits for thread 1 and then wakes the futex itself. Its wait is over but its edge stays, so the
next wait of thread 1 closes a cycle.
-/
def falseAlarm : List Event :=
  [⟨.wake, 1, 0x10000, .bare⟩, ⟨.wait, 2, 0x10000, .bare⟩, ⟨.wake, 2, 0x10000, .bare⟩,
    ⟨.wait, 1, 0x10000, .bare⟩]

theorem exists_falseAlarm : ¬∀ evs, (∀ e ∈ evs, junkAddr e.addr = false) → (run evs).NoFalseAlarm := by
  intro h
  have halarm := noFalseAlarm_iff.mp (h falseAlarm (by decide))
  obtain ⟨a, ha, -⟩ := halarm (identifierOf ['t', 'h', 'r', 'e', 'a', 'd', '-', '2'] 2)
    (identifierOf ['t', 'h', 'r', 'e', 'a', 'd', '-', '1'] 1) (by decide) (.single (by decide))
  obtain ⟨l, hl, hmem⟩ := Tracker.exists_entry_of_mem_waiters ha
  have hnone : ∀ entry ∈ (run falseAlarm).futexWaiters.entries,
      identifierOf ['t', 'h', 'r', 'e', 'a', 'd', '-', '2'] 2 ∉ entry.2 := by
    decide
  exact hnone ⟨a, l⟩ hl hmem

end GlobalState

end DeadlockInterceptor
