import Mathlib.Logic.Basic

/-!
This module contains the rules for invariants and for pre- and postconditions of computations in a state monad.
-/

universe u

/--
The computation `m` started in a state with `P` ends with a result and a state with `Q`.
-/
def Ensures {σ α : Type u} (P : σ → Prop) (m : StateM σ α) (Q : α → σ → Prop) : Prop :=
  ∀ s, P s → Q (m.run s).1 (m.run s).2

/--
The computation `m` started in a state with `I` ends in a state with `I`.
-/
def Preserves {σ α : Type u} (I : σ → Prop) (m : StateM σ α) : Prop := ∀ s, I s → I (m.run s).2

namespace Preserves

variable {σ α β : Type u} {I : σ → Prop}

theorem pure (a : α) : Preserves I (Pure.pure a : StateM σ α) := fun _ h => h

theorem bind {m : StateM σ α} {f : α → StateM σ β} (hm : Preserves I m) (hf : ∀ a, Preserves I (f a)) :
    Preserves I (m >>= f) :=
  fun s h => hf (m.run s).1 (m.run s).2 (hm s h)

theorem get : Preserves I (MonadState.get : StateM σ σ) := fun _ h => h

theorem modify {f : σ → σ} (hf : ∀ s, I s → I (f s)) : Preserves I (modifyGet fun s => (⟨⟩, f s) : StateM σ PUnit) :=
  fun s h => hf s h

theorem ite {p : Prop} [Decidable p] {m n : StateM σ α} (hm : Preserves I m) (hn : Preserves I n) :
    Preserves I (if p then m else n) := by
  split
  . exact hm
  . exact hn

theorem forM {l : List α} {f : α → StateM σ PUnit} (h : ∀ a ∈ l, Preserves I (f a)) : Preserves I (l.forM f) := by
  induction l with
  | nil => exact pure _
  | cons a l ih =>
    refine bind (h a List.mem_cons_self) fun _ => ?_
    exact ih fun a' ha' => h a' (List.mem_cons_of_mem a ha')

theorem ensures {m : StateM σ α} (h : Preserves I m) : Ensures I m fun _ => I := h

end Preserves

namespace Ensures

variable {σ α β : Type u} {P : σ → Prop} {Q : α → σ → Prop} {R : β → σ → Prop}

theorem pure {a : α} (h : ∀ s, P s → Q a s) : Ensures P (Pure.pure a : StateM σ α) Q := h

theorem bind {m : StateM σ α} {f : α → StateM σ β} (hm : Ensures P m Q) (hf : ∀ a, Ensures (Q a) (f a) R) :
    Ensures P (m >>= f) R :=
  fun s h => hf (m.run s).1 (m.run s).2 (hm s h)

theorem modify {f : σ → σ} {Q : PUnit → σ → Prop} (hf : ∀ s, P s → Q ⟨⟩ (f s)) :
    Ensures P (modifyGet fun s => (⟨⟩, f s) : StateM σ PUnit) Q :=
  fun s h => hf s h

theorem ite {p : Prop} [Decidable p] {m n : StateM σ α} (hm : p → Ensures P m Q) (hn : ¬p → Ensures P n Q) :
    Ensures P (if p then m else n) Q := by
  split
  . next h => exact hm h
  . next h => exact hn h

theorem bind_bind {γ : Type u} {m : StateM σ α} {n : α → StateM σ β} {k : β → StateM σ γ} {S : γ → σ → Prop}
    (hmn : Ensures P (m >>= n) R) (hk : ∀ b, Ensures (R b) (k b) S) : Ensures P (m >>= fun a => n a >>= k) S :=
  fun s h => hk _ _ (hmn s h)

theorem and_left {p : Prop} {m : StateM σ α} (h : p → Ensures P m Q) : Ensures (fun s => p ∧ P s) m Q :=
  fun s hs => h hs.1 s hs.2

theorem bind_eq {m : StateM σ α} {f : α → StateM σ β} {a : α} {P' : σ → Prop}
    (hm : Ensures P m fun b s => b = a ∧ P' s) (hf : Ensures P' (f a) R) : Ensures P (m >>= f) R := by
  refine bind hm fun b => and_left fun hb => ?_
  rw [hb]
  exact hf

theorem imp {P' : σ → Prop} {Q' : α → σ → Prop} {m : StateM σ α} (h : Ensures P m Q) (hP : ∀ s, P' s → P s)
    (hQ : ∀ a s, Q a s → Q' a s) : Ensures P' m Q' :=
  fun s hs => hQ _ _ (h s (hP s hs))

/-- The computation for `a` turns `P` into `Q`, which the ones before and after it keep. -/
theorem forM_of_mem {P Q : σ → Prop} {l : List α} {f : α → StateM σ PUnit} {a : α} (ha : a ∈ l)
    (hf : Ensures P (f a) fun _ => Q) (hP : ∀ b ∈ l, b ≠ a → Preserves P (f b)) (hQ : ∀ b ∈ l, Preserves Q (f b)) :
    Ensures P (l.forM f) fun _ => Q := by
  induction l with
  | nil => cases ha
  | cons b l ih =>
    have hQ' := fun b' hb' => hQ b' (List.mem_cons_of_mem b hb')
    by_cases hb : b = a
    . subst hb
      exact .bind hf fun _ => (Preserves.forM hQ').ensures
    . refine .bind (hP b List.mem_cons_self hb).ensures fun _ => ?_
      have ha' : a ∈ l := (List.mem_cons.mp ha).resolve_left fun h => hb h.symm
      exact ih ha' (fun b' hb' => hP b' (List.mem_cons_of_mem b hb')) hQ'

theorem forM_of_mem_of_nodup {P Q : σ → Prop} {l : List α} {f : α → StateM σ PUnit} {a : α} (hl : l.Nodup) (ha : a ∈ l)
    (hf : Ensures P (f a) fun _ => Q) (hP : ∀ b ∈ l, b ≠ a → Preserves P (f b))
    (hQ : ∀ b ∈ l, b ≠ a → Preserves Q (f b)) : Ensures P (l.forM f) fun _ => Q := by
  induction l with
  | nil => cases ha
  | cons b l ih =>
    rw [List.nodup_cons] at hl
    by_cases hb : b = a
    . subst hb
      refine .bind hf fun _ => (Preserves.forM fun b' hb' => ?_).ensures
      exact hQ b' (List.mem_cons_of_mem b hb') fun heq => hl.1 (heq ▸ hb')
    . refine .bind (hP b List.mem_cons_self hb).ensures fun _ => ?_
      have ha' : a ∈ l := (List.mem_cons.mp ha).resolve_left fun h => hb h.symm
      exact ih hl.2 ha' (fun b' hb' => hP b' (List.mem_cons_of_mem b hb')) fun b' hb' =>
        hQ b' (List.mem_cons_of_mem b hb')

theorem and_preserves {I : σ → Prop} {m : StateM σ α} (h : Ensures (fun _ => True) m Q) (hI : Preserves I m) :
    Ensures I m fun a s => Q a s ∧ I s :=
  fun s hs => ⟨h s trivial, hI s hs⟩

end Ensures
