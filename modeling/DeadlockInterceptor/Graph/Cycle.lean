import Mathlib.Data.List.Chain
import Mathlib.Logic.Relation

/-!
This module contains directed cycles of a relation, given as the list of their members, and their
connection to the transitive closures of the relation.
-/

universe u v

open Relation

namespace DirectedGraph

variable {α : Type u} (r : α → α → Prop)

def succAt (cyc : List α) (i : Nat) (h : i < cyc.length) : α :=
  cyc.get ⟨(i + 1) % cyc.length, Nat.mod_lt _ (by omega)⟩

/--
`cyc` is a directed cycle `c₀ → c₁ → … → c₀`.
-/
structure IsCycle (cyc : List α) : Prop where
  ne_nil : cyc ≠ []
  edge : ∀ (i : Nat) (h : i < cyc.length), r cyc[i] (succAt cyc i h)

def ReachesCycle (a : α) : Prop := ∃ b, ReflTransGen r a b ∧ TransGen r b b

variable {r}

theorem IsCycle.length_pos {cyc : List α} (h : IsCycle r cyc) : 0 < cyc.length :=
  List.length_pos_iff.mpr h.ne_nil

theorem succAt_mem (cyc : List α) (i : Nat) (h : i < cyc.length) : succAt cyc i h ∈ cyc := List.get_mem _ _

theorem succAt_of_lt {cyc : List α} {i : Nat} (h : i + 1 < cyc.length) :
    succAt cyc i (by omega) = cyc[i + 1] := by
  simp only [succAt, List.get_eq_getElem, Nat.mod_eq_of_lt h]

theorem succAt_of_last {cyc : List α} {i : Nat} (h : i < cyc.length) (hlast : i + 1 = cyc.length) :
    succAt cyc i h = cyc[0] := by
  simp only [succAt, List.get_eq_getElem, hlast, Nat.mod_self]

theorem succAt_map {β : Type v} (f : α → β) (cyc : List α) (i : Nat) (h : i < (cyc.map f).length) :
    succAt (cyc.map f) i h = f (succAt cyc i (by simpa using h)) := by
  simp [succAt]

theorem IsCycle.reach_add {cyc : List α} (h : IsCycle r cyc) (i : Nat) (hi : i < cyc.length) (k : Nat) :
    ReflTransGen r cyc[i] (cyc.get ⟨(i + k) % cyc.length, Nat.mod_lt _ h.length_pos⟩) := by
  induction k with
  | zero =>
    simp only [List.get_eq_getElem, Nat.add_zero, Nat.mod_eq_of_lt hi]
    exact .refl
  | succ k ih =>
    have hlast := h.edge ((i + k) % cyc.length) (Nat.mod_lt _ h.length_pos)
    simp only [succAt, Nat.mod_add_mod] at hlast
    exact ih.tail hlast

theorem IsCycle.reach {cyc : List α} (h : IsCycle r cyc) {x y : α} (hx : x ∈ cyc) (hy : y ∈ cyc) :
    ReflTransGen r x y := by
  obtain ⟨i, hi, rfl⟩ := List.getElem_of_mem hx
  obtain ⟨j, hj, rfl⟩ := List.getElem_of_mem hy
  have hk := h.reach_add i hi (cyc.length - i + j)
  have hmod : (i + (cyc.length - i + j)) % cyc.length = j := by
    rw [show i + (cyc.length - i + j) = j + cyc.length by omega, Nat.add_mod_right,
      Nat.mod_eq_of_lt hj]
  simp only [List.get_eq_getElem, hmod] at hk
  exact hk

theorem IsCycle.transGen {cyc : List α} (h : IsCycle r cyc) {x : α} (hx : x ∈ cyc) : TransGen r x x := by
  obtain ⟨i, hi, rfl⟩ := List.getElem_of_mem hx
  exact .head' (h.edge i hi) (h.reach (succAt_mem _ _ _) (List.getElem_mem _))

theorem IsCycle.exists_succ {cyc : List α} (h : IsCycle r cyc) {x : α} (hx : x ∈ cyc) :
    ∃ y, r x y ∧ y ∈ cyc := by
  obtain ⟨i, hi, rfl⟩ := List.getElem_of_mem hx
  exact ⟨succAt cyc i hi, h.edge i hi, succAt_mem cyc i hi⟩

theorem not_isCycle_of_no_walk (h : ∀ x y z, r x y → ¬r y z) (cyc : List α) : ¬IsCycle r cyc := by
  intro hcyc
  obtain ⟨y, hxy, hy⟩ := hcyc.exists_succ (List.head_mem hcyc.ne_nil)
  obtain ⟨z, hyz, -⟩ := hcyc.exists_succ hy
  exact h _ y z hxy hyz

theorem IsCycle.of_isChain {a : α} {l : List α} (hl : (a :: l).IsChain r)
    (hback : r ((a :: l).getLast (List.cons_ne_nil _ _)) a) : IsCycle r (a :: l) := by
  refine ⟨List.cons_ne_nil _ _, ?_⟩
  intro i hi
  cases Nat.lt_or_ge (i + 1) (a :: l).length with
  | inl hlt =>
    rw [succAt_of_lt hlt]
    exact hl.getElem i hlt
  | inr hge =>
    obtain rfl : i = (a :: l).length - 1 := by omega
    rw [succAt_of_last hi (by omega), List.getElem_cons_zero]
    rw [List.getLast_eq_getElem] at hback
    exact hback

theorem exists_isCycle_of_edge {x y : α} (hxy : r x y) (hyx : ReflTransGen r y x) :
    ∃ cyc, IsCycle r cyc ∧ ∃ (i : Nat) (h : i < cyc.length), cyc[i] = x ∧ succAt cyc i h = y := by
  obtain ⟨l, hl, hlast⟩ := List.exists_isChain_cons_of_relationReflTransGen hyx
  refine ⟨y :: l, .of_isChain hl (by rwa [hlast]), l.length, by simp, ?_, ?_⟩
  . rw [← hlast, List.getLast_eq_getElem]
    simp
  . exact succAt_of_last (by simp) (by simp)

theorem forall_isCycle_iff {P : α → α → Prop} :
    (∀ cyc, IsCycle r cyc → ∀ (i : Nat) (h : i < cyc.length), P cyc[i] (succAt cyc i h))
      ↔
    ∀ x y, r x y → ReflTransGen r y x → P x y := by
  constructor
  . intro h x y hxy hyx
    obtain ⟨cyc, hc, i, hi, rfl, rfl⟩ := exists_isCycle_of_edge hxy hyx
    exact h cyc hc i hi
  . intro h cyc hc i hi
    exact h _ _ (hc.edge i hi) (hc.reach (succAt_mem _ _ _) (List.getElem_mem _))

theorem ReachesCycle.of_isCycle {cyc : List α} (h : IsCycle r cyc) {x : α} (hx : x ∈ cyc) :
    ReachesCycle r x := ⟨x, .refl, h.transGen hx⟩

theorem ReachesCycle.head {a b : α} (hab : r a b) (h : ReachesCycle r b) : ReachesCycle r a := by
  obtain ⟨c, hbc, hcc⟩ := h
  exact ⟨c, .head hab hbc, hcc⟩

theorem ReachesCycle.of_reach {a b : α} (hab : ReflTransGen r a b) (h : ReachesCycle r b) :
    ReachesCycle r a := by
  obtain ⟨c, hbc, hcc⟩ := h
  exact ⟨c, hab.trans hbc, hcc⟩

theorem ReachesCycle.mono {r' : α → α → Prop} (hle : r ≤ r') {a : α} (h : ReachesCycle r a) :
    ReachesCycle r' a := by
  obtain ⟨b, hab, hbb⟩ := h
  exact ⟨b, ReflTransGen.mono hle _ _ hab, TransGen.mono hle _ _ hbb⟩

theorem ReachesCycle.exists_isCycle {a : α} (h : ReachesCycle r a) : ∃ cyc, IsCycle r cyc := by
  obtain ⟨b, -, hbb⟩ := h
  obtain ⟨c, hbc, hcb⟩ := TransGen.head'_iff.mp hbb
  obtain ⟨cyc, hcyc, -⟩ := exists_isCycle_of_edge hbc hcb
  exact ⟨cyc, hcyc⟩

theorem IsCycle.mono {r' : α → α → Prop} (hle : r ≤ r') {cyc : List α} (h : IsCycle r cyc) :
    IsCycle r' cyc :=
  ⟨h.ne_nil, fun i hi => hle _ _ (h.edge i hi)⟩

theorem exists_isCycle_iff_of_out {r' : α → α → Prop} {a : α} (hr : ∀ cyc, ¬IsCycle r cyc)
    (hr' : ∀ x y, r' x y → x ≠ a → r x y) : (∃ cyc, IsCycle r' cyc) ↔ ReachesCycle r' a := by
  constructor
  . rintro ⟨cyc, hcyc⟩
    by_cases ha : a ∈ cyc
    . exact .of_isCycle hcyc ha
    . exfalso
      apply hr cyc
      refine ⟨hcyc.ne_nil, ?_⟩
      intro i hi
      apply hr' _ _ (hcyc.edge i hi)
      rintro rfl
      exact ha (List.getElem_mem hi)
  . exact ReachesCycle.exists_isCycle

/--
A cycle of the quotient by a partial map that joins no two vertices comes from a cycle of the vertices.
-/
theorem exists_isCycle_of_quotient {β : Type v} {q : β → β → Prop} {f : α → Option β}
    (hq : ∀ i j, q i j → ∃ x y, r x y ∧ f x = some i ∧ f y = some j)
    (hf : ∀ x y i, f x = some i → f y = some i → x = y) {cyc : List β} (hcyc : IsCycle q cyc) :
    ∃ cyc', IsCycle r cyc' := by
  have hlift : ∀ i j, TransGen q i j → ∃ x y, f x = some i ∧ f y = some j ∧ TransGen r x y := by
    intro i j h
    induction h with
    | single hij =>
      obtain ⟨x, y, hxy, hx, hy⟩ := hq _ _ hij
      exact ⟨x, y, hx, hy, .single hxy⟩
    | tail _ hjk ih =>
      obtain ⟨x, y, hx, hy, hxy⟩ := ih
      obtain ⟨y', z, hyz, hy', hz⟩ := hq _ _ hjk
      obtain rfl := hf y y' _ hy hy'
      exact ⟨x, z, hx, hz, hxy.tail hyz⟩
  obtain ⟨x, y, hx, hy, hxy⟩ := hlift _ _ (hcyc.transGen (List.head_mem hcyc.ne_nil))
  obtain rfl := hf x y _ hx hy
  exact ReachesCycle.exists_isCycle ⟨x, .refl, hxy⟩

/--
The rule for finished vertices of a search: a vertex reaches a cycle only through a successor that does.
-/
theorem reachesCycle_iff {a : α} : ReachesCycle r a ↔ ∃ b, r a b ∧ ReachesCycle r b := by
  constructor
  . rintro ⟨c, hac, hcc⟩
    cases hac.cases_head with
    | inl heq =>
      subst heq
      obtain ⟨b, hab, hba⟩ := TransGen.head'_iff.mp hcc
      exact ⟨b, hab, a, hba, hcc⟩
    | inr hhead =>
      obtain ⟨b, hab, hbc⟩ := hhead
      exact ⟨b, hab, c, hbc, hcc⟩
  . rintro ⟨b, hab, hb⟩
    exact hb.head hab

theorem reflTransGen_addEdge_iff {r' : α → α → Prop} {a b : α}
    (hr' : ∀ x y, r' x y ↔ r x y ∨ (x = a ∧ y = b)) {x y : α} :
    ReflTransGen r' x y
      ↔
    ReflTransGen r x y ∨ (ReflTransGen r x a ∧ ReflTransGen r b y) := by
  have hle : r ≤ r' := fun x y h => (hr' x y).mpr (.inl h)
  constructor
  . intro h
    induction h with
    | refl => exact .inl .refl
    | tail _ hlast ih =>
      rcases (hr' _ _).mp hlast with hold | ⟨rfl, rfl⟩
      . rcases ih with ih | ⟨ih1, ih2⟩
        . exact .inl (ih.tail hold)
        . exact .inr ⟨ih1, ih2.tail hold⟩
      . rcases ih with ih | ⟨ih, -⟩
        . exact .inr ⟨ih, .refl⟩
        . exact .inr ⟨ih, .refl⟩
  . rintro (h | ⟨h1, h2⟩)
    . exact ReflTransGen.mono hle _ _ h
    . have hab : r' a b := (hr' a b).mpr (.inr ⟨rfl, rfl⟩)
      exact (ReflTransGen.mono hle _ _ h1).trans (.head hab (ReflTransGen.mono hle _ _ h2))

theorem ne_of_reflTransGen_avoiding {t x y : α}
    (h : ReflTransGen (fun p q => q ≠ t ∧ r p q) x y) (hx : x ≠ t) : y ≠ t := by
  rcases h.cases_tail with rfl | ⟨z, -, hz⟩
  . exact hx
  . exact hz.1

end DirectedGraph
