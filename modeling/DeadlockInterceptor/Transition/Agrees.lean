import DeadlockInterceptor.Transition.Preserves

/-!
This module contains the rules for two computations in state monads that are compared step by step: `Agree R m n`
says that `R` is a simulation between the states and that the results are equal.
-/

universe u

/--
Started in states that `R` relates, `m` and `n` return the same and end in states that `R` relates.
-/
def Agree {σ τ α : Type u} (R : σ → τ → Prop) (m : StateM σ α) (n : StateM τ α) : Prop :=
  ∀ s t, R s t → (m.run s).1 = (n.run t).1 ∧ R (m.run s).2 (n.run t).2

namespace Agree

variable {σ τ α β : Type u} {R : σ → τ → Prop}

theorem pure (a : α) : Agree R (Pure.pure a : StateM σ α) (Pure.pure a : StateM τ α) := fun _ _ h => ⟨rfl, h⟩

theorem bind {m : StateM σ α} {n : StateM τ α} {f : α → StateM σ β} {g : α → StateM τ β} (hm : Agree R m n)
    (hf : ∀ a, Agree R (f a) (g a)) : Agree R (m >>= f) (n >>= g) := by
  intro s t h
  obtain ⟨heq, hnext⟩ := hm s t h
  change ((f (m.run s).1).run (m.run s).2).1 = _ ∧ R ((f (m.run s).1).run (m.run s).2).2 _
  rw [heq]
  exact hf _ _ _ hnext

theorem get_bind {f : σ → StateM σ β} {g : τ → StateM τ β} (hf : ∀ s t, R s t → Agree R (f s) (g t)) :
    Agree R (MonadState.get >>= f) (MonadState.get >>= g) :=
  fun s t h => hf s t h s t h

theorem modify {f : σ → σ} {g : τ → τ} (hf : ∀ s t, R s t → R (f s) (g t)) :
    Agree R (modifyGet fun s => (⟨⟩, f s) : StateM σ PUnit) (modifyGet fun t => (⟨⟩, g t)) :=
  fun s t h => ⟨rfl, hf s t h⟩

theorem bind_modify {m : StateM σ β} {g : τ → τ} {n : StateM τ β} (hg : ∀ s t, R s t → R s (g t))
    (hm : Agree R m n) : Agree R m (do (modifyGet fun t => (⟨⟩, g t) : StateM τ PUnit); n) :=
  fun s t h => hm s (g t) (hg s t h)

theorem ite {p : Prop} [Decidable p] {m m' : StateM σ α} {n n' : StateM τ α} (hm : Agree R m n)
    (hn : Agree R m' n') : Agree R (if p then m else m') (if p then n else n') := by
  split
  . exact hm
  . exact hn

theorem preserves {I : σ → Prop} {m : StateM σ α} (h : Agree (fun s t => s = t ∧ I s) m m) : Preserves I m :=
  fun s hs => (h s s ⟨rfl, hs⟩).2.2

theorem of_preserves {I : σ → Prop} {m : StateM σ α} (h : Preserves I m) :
    Agree (fun s t => s = t ∧ I s) m m := by
  rintro s t ⟨rfl, hs⟩
  exact ⟨rfl, rfl, h s hs⟩

end Agree
