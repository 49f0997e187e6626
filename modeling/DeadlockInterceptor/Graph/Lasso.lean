import DeadlockInterceptor.Graph.Cycle
import Mathlib.Data.Finset.Card
import Mathlib.Data.Finset.Dedup

/-!
This module contains the walks a depth first search reports: walks that end at a vertex they have been to
before, and how a walk can be continued to such a walk.
-/

universe u

open Relation

namespace DirectedGraph

variable {α : Type u} (r : α → α → Prop)

/--
A walk without repetitions, but for its last vertex, which the walk has been to before.
-/
structure IsLasso (v : List α) : Prop where
  walk : v.IsChain r
  nodup : v.dropLast.Nodup
  last_mem : ∃ y ∈ v.dropLast, v.getLast? = some y

variable {r}

theorem isLasso_concat_iff {p : List α} {y : α} :
    IsLasso r (p ++ [y]) ↔ (p ++ [y]).IsChain r ∧ p.Nodup ∧ y ∈ p := by
  constructor
  . intro h
    obtain ⟨z, hz, hlast⟩ := h.last_mem
    have hnodup := h.nodup
    rw [List.dropLast_concat] at hz hnodup
    rw [List.getLast?_concat, Option.some.injEq] at hlast
    subst hlast
    exact ⟨h.walk, hnodup, hz⟩
  . rintro ⟨hwalk, hnodup, hy⟩
    refine ⟨hwalk, ?_, y, ?_, ?_⟩
    . rwa [List.dropLast_concat]
    . rwa [List.dropLast_concat]
    . exact List.getLast?_concat

theorem IsLasso.exists_concat {v : List α} (h : IsLasso r v) : ∃ p y, v = p ++ [y] := by
  obtain ⟨y, -, hlast⟩ := h.last_mem
  exact ⟨v.dropLast, y, (List.dropLast_append_getLast? y hlast).symm⟩

section cyclePart

variable [DecidableEq α]

def cyclePart (v : List α) : List α :=
  match v.getLast? with
  | some y => v.dropLast.dropWhile (· ≠ y)
  | none => []

theorem cyclePart_concat (p : List α) (y : α) : cyclePart (p ++ [y]) = p.dropWhile (· ≠ y) := by
  simp only [cyclePart, List.getLast?_concat, List.dropLast_concat]

theorem cyclePart_split {pre post : List α} {y : α} (hpre : y ∉ pre) :
    cyclePart (pre ++ y :: post ++ [y]) = y :: post := by
  rw [cyclePart_concat, List.dropWhile_append_of_pos]
  . simp
  . intro x hx
    have hne : x ≠ y := by
      rintro rfl
      exact hpre hx
    simpa using hne

theorem IsLasso.exists_split {v : List α} (h : IsLasso r v) :
    ∃ pre y post, v = pre ++ y :: post ++ [y] ∧ cyclePart v = y :: post := by
  obtain ⟨p, y, rfl⟩ := h.exists_concat
  obtain ⟨-, hnodup, hy⟩ := isLasso_concat_iff.mp h
  obtain ⟨pre, post, rfl⟩ := List.append_of_mem hy
  have hpre : y ∉ pre := fun hmem =>
    (List.nodup_append.mp hnodup).2.2 y hmem y List.mem_cons_self rfl
  exact ⟨pre, y, post, rfl, cyclePart_split hpre⟩

theorem IsLasso.isCycle_cyclePart {v : List α} (h : IsLasso r v) : IsCycle r (cyclePart v) := by
  obtain ⟨pre, y, post, heq, hpart⟩ := h.exists_split
  have hwalk := h.walk
  rw [heq, List.append_assoc] at hwalk
  have hround := hwalk.right_of_append
  rw [hpart]
  apply IsCycle.of_isChain
  . exact hround.left_of_append
  . have hlast := (List.isChain_append.mp hround).2.2
    exact hlast _ (List.getLast?_eq_some_getLast _) y rfl

theorem isCycle_dropWhile {p : List α} {x y : α} (hwalk : p.IsChain r) (hnodup : p.Nodup)
    (hlast : p.getLast? = some x) (hxy : r x y) (hy : y ∈ p) : IsCycle r (p.dropWhile (· ≠ y)) := by
  rw [← cyclePart_concat]
  apply IsLasso.isCycle_cyclePart
  rw [isLasso_concat_iff, List.isChain_append]
  refine ⟨⟨hwalk, List.isChain_singleton y, ?_⟩, hnodup, hy⟩
  intro a ha b hb
  rw [hlast, Option.mem_def, Option.some.injEq] at ha
  rw [List.head?_cons, Option.mem_def, Option.some.injEq] at hb
  rwa [← ha, ← hb]

theorem IsLasso.cyclePart_eq_of_closed {v : List α} (h : IsLasso r v)
    (hclosed : ∀ x y, r x y → y ∈ cyclePart v → x ∈ cyclePart v) : cyclePart v = v.dropLast := by
  obtain ⟨pre, y, post, rfl, hpart⟩ := h.exists_split
  rw [hpart] at hclosed
  have hnodup := h.nodup
  rw [List.dropLast_concat] at hnodup
  rw [hpart, List.dropLast_concat]
  cases pre using List.reverseRecOn with
  | nil => rfl
  | append_singleton pre x =>
    -- the last vertex of the way has an edge into the cycle
    exfalso
    have hwalk := h.walk
    rw [List.append_assoc, List.append_assoc] at hwalk
    have hxy : r x y := (List.isChain_cons_cons.mp hwalk.right_of_append).1
    have hx := hclosed x y hxy List.mem_cons_self
    exact (List.nodup_append.mp hnodup).2.2 x (by simp) x hx rfl

theorem IsLasso.cyclePart_subset {v : List α} (h : IsLasso r v) : cyclePart v ⊆ v.dropLast := by
  obtain ⟨pre, y, post, rfl, hpart⟩ := h.exists_split
  rw [hpart, List.dropLast_concat]
  exact List.subset_append_right _ _

end cyclePart

/--
A walk to a vertex with `Q` can be continued to a lasso inside `Q` if there are finitely many vertices
with `Q` and each of them has an edge to another one.
-/
theorem exists_isLasso_of_forall_exists {Q : α → Prop} (univ : Finset α) (huniv : ∀ x, Q x → x ∈ univ)
    (hQ : ∀ x, Q x → ∃ y, r x y ∧ Q y) {p : List α} {x : α} (hwalk : (p ++ [x]).IsChain r)
    (hnodup : (p ++ [x]).Nodup) (hx : Q x) :
    ∃ e y, IsLasso r (p ++ [x] ++ e ++ [y]) ∧ Q y ∧ ∀ z ∈ e, Q z := by
  classical
  -- the induction is on the number of vertices the walk has not been to
  generalize hn : (univ \ (p ++ [x]).toFinset).card = n
  induction n using Nat.strongRecOn generalizing p x with
  | ind n ih =>
    obtain ⟨y, hxy, hy⟩ := hQ x hx
    have hwalk' : (p ++ [x] ++ [y]).IsChain r := by
      rw [List.isChain_append]
      refine ⟨hwalk, List.isChain_singleton y, ?_⟩
      intro a ha b hb
      rw [List.getLast?_concat, Option.mem_def, Option.some.injEq] at ha
      rw [List.head?_cons, Option.mem_def, Option.some.injEq] at hb
      subst ha hb
      exact hxy
    by_cases hmem : y ∈ p ++ [x]
    . refine ⟨[], y, ?_, hy, by simp⟩
      rw [List.append_nil, isLasso_concat_iff]
      exact ⟨hwalk', hnodup, hmem⟩
    . have hnodup' : (p ++ [x] ++ [y]).Nodup := by
        rw [List.nodup_append]
        refine ⟨hnodup, List.nodup_singleton y, ?_⟩
        intro a ha b hb heq
        rw [List.mem_singleton] at hb
        subst heq hb
        exact hmem ha
      have hlt : (univ \ (p ++ [x] ++ [y]).toFinset).card < n := by
        rw [← hn]
        apply Finset.card_lt_card
        refine ⟨Finset.sdiff_subset_sdiff le_rfl ?_, ?_⟩
        . intro a ha
          rw [List.mem_toFinset] at ha ⊢
          exact List.mem_append_left _ ha
        . intro hsub
          have hin : y ∈ univ \ (p ++ [x]).toFinset := by
            rw [Finset.mem_sdiff, List.mem_toFinset]
            exact ⟨huniv y hy, hmem⟩
          have := (Finset.mem_sdiff.mp (hsub hin)).2
          exact this (by simp)
      obtain ⟨e, z, hlasso, hz, he⟩ := ih _ hlt hwalk' hnodup' hy rfl
      refine ⟨y :: e, z, ?_, hz, ?_⟩
      . rw [List.append_assoc (p ++ [x]) [y] e] at hlasso
        exact hlasso
      . intro w hw
        rcases List.mem_cons.mp hw with rfl | hw
        . exact hy
        . exact he w hw

theorem exists_walk_to_first {C : α → Prop} {a b : α} (hreach : ReflTransGen r a b) (hb : C b) :
    ∃ p x, (p ++ [x]).IsChain r ∧ (p ++ [x]).Nodup ∧ (p ++ [x]).head? = some a ∧ C x ∧
      ∀ z ∈ p, ¬C z := by
  induction hreach using ReflTransGen.head_induction_on with
  | refl => exact ⟨[], b, List.isChain_singleton b, List.nodup_singleton b, rfl, hb, by simp⟩
  | @head a c hac _ ih =>
    by_cases ha : C a
    . exact ⟨[], a, List.isChain_singleton a, List.nodup_singleton a, rfl, ha, by simp⟩
    . obtain ⟨p, x, hwalk, hnodup, hhead, hx, hp⟩ := ih
      by_cases hmem : a ∈ p
      . -- the walk passes through `a`, so only its end is needed
        obtain ⟨pre, post, rfl⟩ := List.append_of_mem hmem
        rw [List.append_assoc] at hwalk hnodup
        refine ⟨a :: post, x, hwalk.right_of_append, hnodup.of_append_right, rfl, hx, ?_⟩
        intro z hz
        exact hp z (List.mem_append_right _ hz)
      . have hax : a ≠ x := by
          rintro rfl
          exact ha hx
        refine ⟨a :: p, x, ?_, ?_, rfl, hx, ?_⟩
        . rw [List.cons_append, List.isChain_cons]
          refine ⟨?_, hwalk⟩
          intro y hy
          rw [hhead, Option.mem_def, Option.some.injEq] at hy
          rwa [← hy]
        . rw [List.cons_append, List.nodup_cons]
          exact ⟨by simp [hmem, hax], hnodup⟩
        . intro z hz
          rcases List.mem_cons.mp hz with rfl | hz
          . exact ha
          . exact hp z hz

theorem reach_of_head {l : List α} {a x : α} (h : l.IsChain r) (ha : l.head? = some a) (hx : x ∈ l) :
    ReflTransGen r a x := by
  induction l generalizing a with
  | nil => exact absurd hx List.not_mem_nil
  | cons b l ih =>
    rw [List.head?_cons, Option.some.injEq] at ha
    subst ha
    rcases List.mem_cons.mp hx with rfl | hx
    . exact .refl
    . cases l with
      | nil => exact absurd hx List.not_mem_nil
      | cons c l =>
        rw [List.isChain_cons_cons] at h
        exact .head h.1 (ih h.2 rfl hx)

theorem reach_to_last {l : List α} {x y : α} (h : l.IsChain r) (hy : l.getLast? = some y) (hx : x ∈ l) :
    ReflTransGen r x y := by
  obtain ⟨pre, post, rfl⟩ := List.append_of_mem hx
  rw [List.getLast?_append_of_ne_nil _ (List.cons_ne_nil x post)] at hy
  exact reach_of_head h.right_of_append rfl (List.mem_of_getLast? hy)

theorem IsLasso.reachesCycle {v : List α} (h : IsLasso r v) {x : α} (hx : x ∈ v) : ReachesCycle r x := by
  classical
  obtain ⟨pre, y, post, rfl, hpart⟩ := h.exists_split
  have hcyc := h.isCycle_cyclePart
  rw [hpart] at hcyc
  exact .of_reach (reach_to_last h.walk List.getLast?_concat hx) (.of_isCycle hcyc List.mem_cons_self)

theorem isChain_and_iff {P : α → Prop} {l : List α} {y : α} :
    (l ++ [y]).IsChain (fun a b => P a ∧ r a b) ↔ (∀ x ∈ l, P x) ∧ (l ++ [y]).IsChain r := by
  induction l with
  | nil => simp
  | cons x l ih =>
    cases l with
    | nil => simp
    | cons z l =>
      simp only [List.cons_append, List.isChain_cons_cons] at ih ⊢
      rw [ih, List.forall_mem_cons (p := P) (a := x)]
      tauto

end DirectedGraph
