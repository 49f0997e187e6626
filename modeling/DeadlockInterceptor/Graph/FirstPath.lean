import DeadlockInterceptor.Graph.Cycle
import Mathlib.Data.List.Basic
import Mathlib.Data.List.Chain
import Mathlib.Data.Set.Insert
import Mathlib.Logic.Relation

/-!
This module contains the ways on which a depth first search comes to a vertex for the first time, in a graph
whose successors are given in the order in which they are visited. They are described by what can be reached
around the vertices that have been seen, without the search itself.
-/

universe u

open Relation

namespace DirectedGraph

variable {α : Type u} (adj : α → List α)

def EdgeOutside (V : Set α) (x y : α) : Prop := y ∈ adj x ∧ y ∉ V

/--
What has been seen once all vertices of `ws` have been followed around `V`: the vertices of `V` and those that
can be reached from `ws` without passing through `V`.
-/
def Seen (V : Set α) (ws : List α) : Set α :=
  V ∪ {x | ∃ w ∈ ws, w ∉ V ∧ ReflTransGen (EdgeOutside adj V) w x}

variable {adj} {V : Set α} {ws ws' : List α} {n : α}

theorem subset_seen : V ⊆ Seen adj V ws := Set.subset_union_left

theorem seen_nil : Seen adj V [] = V := by
  ext x
  simp [Seen]

theorem notMem_of_reach {w x : α} (hw : w ∉ V) (h : ReflTransGen (EdgeOutside adj V) w x) : x ∉ V := by
  rcases h.cases_tail with rfl | ⟨y, -, hyx⟩
  . exact hw
  . exact hyx.2

theorem seen_edge {x y : α} (hx : x ∈ Seen adj V ws) (hxV : x ∉ V) (hxy : y ∈ adj x) :
    y ∈ Seen adj V ws := by
  by_cases hy : y ∈ V
  . exact .inl hy
  . rcases hx with hx | ⟨w, hw, hwV, hreach⟩
    . exact absurd hx hxV
    . exact .inr ⟨w, hw, hwV, hreach.tail ⟨hxy, hy⟩⟩

theorem seen_append : Seen adj V (ws ++ ws') = Seen adj (Seen adj V ws) ws' := by
  ext x
  constructor
  . rintro (hx | ⟨w, hw, hwV, hreach⟩)
    . exact .inl (.inl hx)
    . rcases List.mem_append.mp hw with hw | hw
      . exact .inl (.inr ⟨w, hw, hwV, hreach⟩)
      . by_cases hseen : w ∈ Seen adj V ws
        . -- what is reached from a seen vertex around `V` has been seen as well
          left
          induction hreach with
          | refl => exact hseen
          | tail hwy hyz ih => exact seen_edge ih (notMem_of_reach hwV hwy) hyz.1
        . induction hreach with
          | refl => exact .inr ⟨w, hw, hseen, .refl⟩
          | @tail y z hwy hyz ih =>
            by_cases hz : z ∈ Seen adj V ws
            . exact .inl hz
            . rcases ih with hy | ⟨w', hw', hseen', hreach'⟩
              . exact absurd (seen_edge hy (notMem_of_reach hwV hwy) hyz.1) hz
              . exact .inr ⟨w', hw', hseen', hreach'.tail ⟨hyz.1, hz⟩⟩
  . rintro ((hx | ⟨w, hw, hwV, hreach⟩) | ⟨w, hw, hseen, hreach⟩)
    . exact .inl hx
    . exact .inr ⟨w, List.mem_append_left _ hw, hwV, hreach⟩
    . refine .inr ⟨w, List.mem_append_right _ hw, fun hwV => hseen (.inl hwV), ?_⟩
      exact ReflTransGen.mono (fun _ _ h => ⟨h.1, fun hV => h.2 (.inl hV)⟩) _ _ hreach

theorem seen_cons : Seen adj V (n :: ws) = Seen adj (Seen adj V [n]) ws := by
  rw [← seen_append, List.singleton_append]

theorem seen_singleton_of_mem (hn : n ∈ V) : Seen adj V [n] = V := by
  ext x
  constructor
  . rintro (hx | ⟨w, hw, hwV, -⟩)
    . exact hx
    . rw [List.mem_singleton.mp hw] at hwV
      exact absurd hn hwV
  . exact .inl

theorem seen_singleton (hn : n ∉ V) : Seen adj V [n] = Seen adj (insert n V) (adj n) := by
  ext x
  constructor
  . rintro (hx | ⟨w, hw, hwV, hreach⟩)
    . exact .inl (.inr hx)
    . rw [List.mem_singleton.mp hw] at hreach
      induction hreach with
      | refl => exact .inl (.inl rfl)
      | @tail y z hny hyz ih =>
        by_cases hz : z ∈ insert n V
        . exact .inl hz
        . by_cases hy : y = n
          . subst hy
            exact .inr ⟨z, hyz.1, hz, .refl⟩
          . have hyV : y ∉ insert n V := by
              rintro (rfl | hyV)
              . exact hy rfl
              . exact notMem_of_reach hn hny hyV
            exact seen_edge ih hyV hyz.1
  . rintro ((rfl | hx) | ⟨w, hw, hwV, hreach⟩)
    . exact .inr ⟨x, List.mem_singleton_self x, hn, .refl⟩
    . exact .inl hx
    . have hmono : ReflTransGen (EdgeOutside adj V) w x :=
        ReflTransGen.mono (fun _ _ h => ⟨h.1, fun hV => h.2 (.inr hV)⟩) _ _ hreach
      refine .inr ⟨n, List.mem_singleton_self n, hn, hmono.head ⟨hw, ?_⟩⟩
      exact fun hV => hwV (.inr hV)

variable (adj) in
/--
`p` is the way on which a search comes to its vertices for the first time: a search that has seen `V` and
follows `choices` has not yet seen the first vertex of `p` when it gets to it, and so on from there.
-/
def FirstPath : Set α → List α → List α → Prop
  | _, _, [] => True
  | V, choices, v :: p => ∃ before after, choices = before ++ v :: after ∧ v ∉ Seen adj V before ∧
      FirstPath (insert v (Seen adj V before)) (adj v) p

section FirstPath

variable {p choices : List α} {v : α}

theorem FirstPath.notMem (h : FirstPath adj V choices p) : ∀ x ∈ p, x ∉ V := by
  induction p generalizing V choices with
  | nil => simp
  | cons v p ih =>
    obtain ⟨before, after, -, hv, hp⟩ := h
    intro x hx
    rcases List.mem_cons.mp hx with rfl | hx
    . exact fun hV => hv (subset_seen hV)
    . exact fun hV => ih hp x hx (.inr (subset_seen hV))

theorem FirstPath.nodup (h : FirstPath adj V choices p) : p.Nodup := by
  induction p generalizing V choices with
  | nil => exact .nil
  | cons v p ih =>
    obtain ⟨before, after, -, -, hp⟩ := h
    rw [List.nodup_cons]
    exact ⟨fun hv => hp.notMem v hv (.inl rfl), ih hp⟩

theorem firstPath_cons_of_notMem (hn : n ∉ V) :
    FirstPath adj V (n :: choices) (v :: p)
      ↔
    (v = n ∧ FirstPath adj (insert n V) (adj n) p) ∨ FirstPath adj (Seen adj V [n]) choices (v :: p) := by
  constructor
  . rintro ⟨before, after, heq, hv, hp⟩
    cases before with
    | nil =>
      obtain ⟨rfl, -⟩ := List.cons.inj heq
      rw [seen_nil] at hp
      exact .inl ⟨rfl, hp⟩
    | cons b before =>
      obtain ⟨rfl, hrest⟩ := List.cons.inj heq
      rw [seen_cons] at hv hp
      exact .inr ⟨before, after, hrest, hv, hp⟩
  . rintro (⟨rfl, hp⟩ | ⟨before, after, rfl, hv, hp⟩)
    . refine ⟨[], choices, rfl, ?_, ?_⟩
      . rwa [seen_nil]
      . rwa [seen_nil]
    . refine ⟨n :: before, after, rfl, ?_, ?_⟩
      . rwa [seen_cons]
      . rwa [seen_cons]

theorem firstPath_cons_of_mem (hn : n ∈ V) :
    FirstPath adj V (n :: choices) p ↔ FirstPath adj V choices p := by
  cases p with
  | nil => rfl
  | cons v p =>
    constructor
    . rintro ⟨before, after, heq, hv, hp⟩
      cases before with
      | nil =>
        obtain ⟨rfl, -⟩ := List.cons.inj heq
        exact absurd (subset_seen hn) hv
      | cons b before =>
        obtain ⟨rfl, hrest⟩ := List.cons.inj heq
        rw [seen_cons, seen_singleton_of_mem hn] at hv hp
        exact ⟨before, after, hrest, hv, hp⟩
    . rintro ⟨before, after, rfl, hv, hp⟩
      refine ⟨n :: before, after, rfl, ?_, ?_⟩
      . rwa [seen_cons, seen_singleton_of_mem hn]
      . rwa [seen_cons, seen_singleton_of_mem hn]

end FirstPath

theorem getLast?_cons_elim (p choices : List α) (v : α) :
    (v :: p).getLast?.elim choices adj = p.getLast?.elim (adj v) adj := by
  cases p with
  | nil => rfl
  | cons w p => rw [List.getLast?_cons_cons, List.getLast?_eq_some_getLast (List.cons_ne_nil w p)]; rfl

section Closes

variable [DecidableEq α]

variable (adj) in
/--
A search with the vertices of `stack` behind it closes the cycle `cyc`: it goes on over a first path and comes
from the end of it, or from the end of `stack`, back to a vertex it has been to.
-/
def Closes (V : Set α) (stack choices cyc : List α) : Prop :=
  ∃ p c, FirstPath adj V choices p ∧ c ∈ p.getLast?.elim choices adj ∧ c ∈ stack ++ p ∧
    cyc = (stack ++ p).dropWhile (· ≠ c)

variable {stack choices cyc : List α}

theorem not_closes_nil : ¬Closes adj V stack [] cyc := by
  rintro ⟨p, c, hp, hc, -, -⟩
  cases p with
  | nil => exact List.not_mem_nil hc
  | cons v p =>
    obtain ⟨before, after, heq, -, -⟩ := hp
    exact absurd heq (by simp)

theorem closes_cons_of_notMem (hstack : ∀ x ∈ stack, x ∈ V) (hn : n ∉ V) :
    Closes adj V stack (n :: choices) cyc
      ↔
    Closes adj (insert n V) (stack ++ [n]) (adj n) cyc ∨ Closes adj (Seen adj V [n]) stack choices cyc := by
  constructor
  . rintro ⟨p, c, hp, hc, hcs, rfl⟩
    cases p with
    | nil =>
      rcases List.mem_cons.mp hc with rfl | hc
      . rw [List.append_nil] at hcs
        exact absurd (hstack c hcs) hn
      . exact .inr ⟨[], c, trivial, hc, hcs, rfl⟩
    | cons v p =>
      rw [getLast?_cons_elim] at hc
      rcases (firstPath_cons_of_notMem hn).mp hp with ⟨rfl, hp⟩ | hp
      . refine .inl ⟨p, c, hp, hc, ?_, ?_⟩
        . rwa [List.append_assoc]
        . rw [List.append_assoc]
          rfl
      . refine .inr ⟨v :: p, c, hp, ?_, hcs, rfl⟩
        rwa [getLast?_cons_elim]
  . rintro (⟨p, c, hp, hc, hcs, rfl⟩ | ⟨p, c, hp, hc, hcs, rfl⟩)
    . rw [List.append_assoc] at hcs ⊢
      refine ⟨n :: p, c, (firstPath_cons_of_notMem hn).mpr (.inl ⟨rfl, hp⟩), ?_, hcs, rfl⟩
      rwa [getLast?_cons_elim]
    . cases p with
      | nil => exact ⟨[], c, trivial, List.mem_cons_of_mem n hc, hcs, rfl⟩
      | cons v p =>
        refine ⟨v :: p, c, (firstPath_cons_of_notMem hn).mpr (.inr hp), ?_, hcs, rfl⟩
        rw [getLast?_cons_elim] at hc ⊢
        exact hc

theorem closes_cons_of_mem (hn : n ∈ V) :
    Closes adj V stack (n :: choices) cyc
      ↔
    (n ∈ stack ∧ cyc = stack.dropWhile (· ≠ n)) ∨ Closes adj V stack choices cyc := by
  constructor
  . rintro ⟨p, c, hp, hc, hcs, rfl⟩
    rw [firstPath_cons_of_mem hn] at hp
    cases p with
    | nil =>
      rw [List.append_nil] at hcs ⊢
      rcases List.mem_cons.mp hc with rfl | hc
      . exact .inl ⟨hcs, rfl⟩
      . refine .inr ⟨[], c, trivial, hc, ?_, ?_⟩
        . rwa [List.append_nil]
        . rw [List.append_nil]
    | cons v p =>
      refine .inr ⟨v :: p, c, hp, ?_, hcs, rfl⟩
      rw [getLast?_cons_elim] at hc ⊢
      exact hc
  . rintro (⟨hns, rfl⟩ | ⟨p, c, hp, hc, hcs, rfl⟩)
    . refine ⟨[], n, trivial, List.mem_cons_self, ?_, ?_⟩
      . rwa [List.append_nil]
      . rw [List.append_nil]
    . refine ⟨p, c, (firstPath_cons_of_mem hn).mpr hp, ?_, hcs, rfl⟩
      cases p with
      | nil => exact List.mem_cons_of_mem n hc
      | cons v p =>
        rw [getLast?_cons_elim] at hc ⊢
        exact hc

theorem Closes.exists_firstPath (h : Closes adj V [] choices cyc) :
    ∃ pre, FirstPath adj V choices (pre ++ cyc) := by
  obtain ⟨p, c, hp, -, -, rfl⟩ := h
  refine ⟨p.takeWhile (· ≠ c), ?_⟩
  rwa [List.nil_append, List.takeWhile_append_dropWhile]

/--
A search that goes all the way round a cycle closes it.
-/
theorem closes_of_isCycle {pre : List α} (hcyc : IsCycle (fun x y => y ∈ adj x) cyc)
    (hp : FirstPath adj V choices (pre ++ cyc)) : Closes adj V [] choices cyc := by
  cases cyc with
  | nil => exact absurd rfl hcyc.ne_nil
  | cons c rest =>
    have hlast : (pre ++ c :: rest).getLast? = some ((c :: rest).getLast (List.cons_ne_nil c rest)) := by
      rw [List.getLast?_append_of_ne_nil pre (List.cons_ne_nil c rest)]
      exact List.getLast?_eq_some_getLast _
    have hback : c ∈ adj ((c :: rest).getLast (List.cons_ne_nil c rest)) := by
      have hedge := hcyc.edge rest.length (by simp)
      rw [succAt_of_last (by simp) (by simp)] at hedge
      rw [List.getLast_eq_getElem]
      exact hedge
    refine ⟨pre ++ c :: rest, c, hp, ?_, ?_, ?_⟩
    . rw [hlast]
      exact hback
    . simp
    . have hpre : c ∉ pre := by
        intro hmem
        exact (List.nodup_append.mp hp.nodup).2.2 c hmem c List.mem_cons_self rfl
      rw [List.nil_append, List.dropWhile_append_of_pos]
      . simp
      . intro x hx
        have hne : x ≠ c := by
          rintro rfl
          exact hpre hx
        simpa using hne

end Closes

end DirectedGraph
