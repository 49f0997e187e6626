import Mathlib.Logic.Basic
import Mathlib.Data.List.Basic

/-!
This module contains the rules for runs of a deterministic transition system: `step s e` is the state
after the event `e`, and a run is the list of its events.
-/

universe u v

namespace Run

variable {σ : Type u} {ε : Type v} (step : σ → ε → σ)

/--
`I` holds in every state the run `evs` goes through, the first one and the last one included.
-/
def States (I : σ → Prop) : σ → List ε → Prop
  | s, [] => I s
  | s, e :: evs => I s ∧ States I (step s e) evs

/--
`P` holds for every event of the run `evs` in the state right before it.
-/
def Steps (P : σ → ε → Prop) : σ → List ε → Prop
  | _, [] => True
  | s, e :: evs => P s e ∧ Steps P (step s e) evs

variable {step}

theorem States.first {I : σ → Prop} {s : σ} {evs : List ε} (h : States step I s evs) : I s := by
  cases evs with
  | nil => exact h
  | cons e evs => exact h.1

theorem States.last {I : σ → Prop} {s : σ} {evs : List ε} (h : States step I s evs) :
    I (evs.foldl step s) := by
  induction evs generalizing s with
  | nil => exact h
  | cons e evs ih => exact ih h.2

theorem States.imp {I J : σ → Prop} (hij : ∀ s, I s → J s) {s : σ} {evs : List ε}
    (h : States step I s evs) : States step J s evs := by
  induction evs generalizing s with
  | nil => exact hij s h
  | cons e evs ih => exact ⟨hij s h.1, ih h.2⟩

theorem foldl_invariant {I : σ → Prop} (hstep : ∀ s e, I s → I (step s e)) {s : σ} (hs : I s)
    (evs : List ε) : I (evs.foldl step s) := by
  induction evs generalizing s with
  | nil => exact hs
  | cons e evs ih => exact ih (hstep s e hs)

theorem foldl_invariant_mem {I : σ → Prop} {s : σ} {evs : List ε}
    (hstep : ∀ s, ∀ e ∈ evs, I s → I (step s e)) (hs : I s) : I (evs.foldl step s) := by
  induction evs generalizing s with
  | nil => exact hs
  | cons e evs ih =>
    apply ih
    . exact fun s e' he' => hstep s e' (List.mem_cons_of_mem e he')
    . exact hstep s e List.mem_cons_self hs

theorem foldl_invariant_before {I : List ε → σ → Prop} {s : σ} {evs : List ε}
    (hstep : ∀ before e after s, evs = before ++ e :: after → I before s → I (before ++ [e]) (step s e))
    (hs : I [] s) : I evs (evs.foldl step s) := by
  have hrest : ∀ (after before : List ε) (s : σ), evs = before ++ after → I before s →
      I evs (after.foldl step s) := by
    intro after
    induction after with
    | nil =>
      intro before s hevs h
      rwa [hevs, List.append_nil]
    | cons e after ih =>
      intro before s hevs h
      apply ih (before ++ [e])
      . rw [hevs, List.append_assoc, List.singleton_append]
      . exact hstep before e after s hevs h
  exact hrest evs [] s rfl hs

theorem foldl_iff_exists {I C : σ → Prop} {P : ε → Prop} (hI : ∀ s e, I s → I (step s e))
    (hC : ∀ s e, I s → (C (step s e) ↔ C s ∨ P e)) {s : σ} (hs : I s) (evs : List ε) :
    C (evs.foldl step s) ↔ C s ∨ ∃ e ∈ evs, P e := by
  induction evs generalizing s with
  | nil => simp
  | cons e evs ih =>
    rw [List.foldl_cons, ih (hI s e hs), hC s e hs, or_assoc]
    simp only [List.mem_cons, exists_eq_or_imp]

theorem steps_of_forall {P : σ → ε → Prop} (h : ∀ s e, P s e) (s : σ) (evs : List ε) :
    Steps step P s evs := by
  induction evs generalizing s with
  | nil => trivial
  | cons e evs ih => exact ⟨h s e, ih (step s e)⟩

theorem steps_of_invariant {I : σ → Prop} {P : σ → ε → Prop} (hstep : ∀ s e, I s → I (step s e))
    (hP : ∀ s e, I s → P s e) {s : σ} (hs : I s) (evs : List ε) : Steps step P s evs := by
  induction evs generalizing s with
  | nil => trivial
  | cons e evs ih => exact ⟨hP s e hs, ih (hstep s e hs)⟩

theorem states_of_invariant {I : σ → Prop} (hstep : ∀ s e, I s → I (step s e)) {s : σ} (hs : I s)
    (evs : List ε) : States step I s evs := by
  induction evs generalizing s with
  | nil => exact hs
  | cons e evs ih => exact ⟨hs, ih (hstep s e hs)⟩

theorem states_of_steps {I : σ → Prop} {P : σ → ε → Prop} (hstep : ∀ s e, I s → P s e → I (step s e))
    {s : σ} {evs : List ε} (hs : I s) (h : Steps step P s evs) : States step I s evs := by
  induction evs generalizing s with
  | nil => exact hs
  | cons e evs ih => exact ⟨hs, ih (hstep s e hs h.1) h.2⟩

/--
If, next to an invariant `J`, one step that the environment `V` allows keeps `I` exactly when it meets `P`,
then an allowed run keeps `I` exactly when all of its steps meet `P`.
-/
theorem states_iff_steps_of {I J : σ → Prop} {V P : σ → ε → Prop}
    (hJ : ∀ s e, V s e → J s → J (step s e))
    (hI : ∀ s e, V s e → J s → I s → (I (step s e) ↔ P s e)) {s : σ} (hJs : J s) (hIs : I s)
    {evs : List ε} (hV : Steps step V s evs) : States step I s evs ↔ Steps step P s evs := by
  induction evs generalizing s with
  | nil => exact iff_of_true hIs trivial
  | cons e evs ih =>
    have hJnext : J (step s e) := hJ s e hV.1 hJs
    constructor
    . intro h
      have hnext : I (step s e) := h.2.first
      exact ⟨(hI s e hV.1 hJs hIs).mp hnext, (ih hJnext hnext hV.2).mp h.2⟩
    . intro h
      have hnext : I (step s e) := (hI s e hV.1 hJs hIs).mpr h.1
      exact ⟨hIs, (ih hJnext hnext hV.2).mpr h.2⟩

theorem states_iff_steps {I J : σ → Prop} {P : σ → ε → Prop} (hJ : ∀ s e, J s → J (step s e))
    (hI : ∀ s e, J s → I s → (I (step s e) ↔ P s e)) {s : σ} (hJs : J s) (hIs : I s)
    (evs : List ε) : States step I s evs ↔ Steps step P s evs := by
  apply states_iff_steps_of (V := fun _ _ => True)
  . exact fun s e _ => hJ s e
  . exact fun s e _ => hI s e
  . exact hJs
  . exact hIs
  . exact steps_of_forall (fun _ _ => trivial) s evs

/--
A run in which every step does `Q` and ends where `I` holds is one whose steps meet `P`, where `P` is what lets
a step do `Q` and keep the stronger `K`.
-/
theorem states_and_steps_iff {I K : σ → Prop} {P Q : σ → ε → Prop} (hKI : ∀ s, K s → I s)
    (hmake : ∀ s e, K s → P s e → K (step s e) ∧ Q s e)
    (hneed : ∀ s e, K s → I (step s e) → Q s e → P s e) {s : σ} (hs : K s) (evs : List ε) :
    (States step I s evs ∧ Steps step Q s evs) ↔ Steps step P s evs := by
  induction evs generalizing s with
  | nil => exact iff_of_true ⟨hKI s hs, trivial⟩ trivial
  | cons e evs ih =>
    constructor
    . rintro ⟨hI, hQ⟩
      have hP : P s e := hneed s e hs hI.2.first hQ.1
      have hK : K (step s e) := (hmake s e hs hP).1
      exact ⟨hP, (ih hK).mp ⟨hI.2, hQ.2⟩⟩
    . rintro ⟨hP, hrest⟩
      obtain ⟨hK, hQ⟩ := hmake s e hs hP
      obtain ⟨hstates, hsteps⟩ := (ih hK).mpr hrest
      exact ⟨⟨hKI s hs, hstates⟩, ⟨hQ, hsteps⟩⟩

end Run
