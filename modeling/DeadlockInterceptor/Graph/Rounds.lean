import DeadlockInterceptor.Graph.Lasso
import Mathlib.Data.List.Rotate
import Mathlib.Data.List.TakeWhile

/-!
This module contains when there is more than one lasso that goes round the same cycle. It may start at another
vertex of the cycle, or lead into it.
-/

universe u

open Relation

namespace DirectedGraph

variable {α : Type u} {r : α → α → Prop}

theorem exists_isLasso_of_transGen {x : α} (hx : TransGen r x x) : ∃ p, IsLasso r (x :: p ++ [x]) := by
  obtain ⟨y, hxy, hyx⟩ := TransGen.head'_iff.mp hx
  obtain ⟨p, z, hwalk, hnodup, hhead, rfl, hp⟩ := exists_walk_to_first (C := (· = x)) hyx rfl
  refine ⟨p, isLasso_concat_iff.mpr ⟨?_, ?_, List.mem_cons_self⟩⟩
  . rw [List.cons_append, List.isChain_cons]
    refine ⟨?_, hwalk⟩
    intro a ha
    rw [hhead, Option.mem_def, Option.some.injEq] at ha
    rwa [← ha]
  . rw [List.nodup_cons]
    exact ⟨fun hmem => hp _ hmem rfl, hnodup.of_append_left⟩

variable [DecidableEq α]

theorem cyclePart_cons_concat (x : α) (p : List α) : cyclePart (x :: p ++ [x]) = x :: p :=
  @cyclePart_split α _ [] p x List.not_mem_nil

theorem isLasso_of_cyclePart_ne_nil {v : List α} (hwalk : v.IsChain r) (hnodup : v.dropLast.Nodup)
    (h : cyclePart v ≠ []) : IsLasso r v := by
  refine ⟨hwalk, hnodup, ?_⟩
  unfold cyclePart at h
  split at h
  . next y hlast =>
    rw [ne_eq, List.dropWhile_eq_nil_iff] at h
    push Not at h
    obtain ⟨x, hx, hxy⟩ := h
    have heq : x = y := by simpa using hxy
    exact ⟨y, heq ▸ hx, hlast⟩
  . exact absurd rfl h

theorem IsLasso.exists_eq_pair {v : List α} (h : IsLasso r v)
    (hclosed : ∀ x y, r x y → TransGen r y y → x = y) : ∃ y, v = [y, y] ∧ cyclePart v = [y] := by
  have hcyc := h.isCycle_cyclePart
  obtain ⟨pre, y, post, rfl, hpart⟩ := h.exists_split
  rw [hpart] at hcyc
  have hy : TransGen r y y := hcyc.transGen List.mem_cons_self
  have hnodup := h.nodup
  rw [List.dropLast_concat] at hnodup
  have hwalk := h.walk
  rw [List.append_assoc] at hwalk
  have hpre : pre = [] := by
    cases pre using List.reverseRecOn with
    | nil => rfl
    | append_singleton pre x =>
      rw [List.append_assoc] at hwalk
      have hxy : r x y := (List.isChain_cons_cons.mp hwalk.right_of_append).1
      have hx : x ∈ pre ++ [x] := List.mem_append_right pre List.mem_cons_self
      exact absurd (hclosed x y hxy hy) fun heq =>
        (List.nodup_append.mp hnodup).2.2 x hx y List.mem_cons_self heq
  have hpost : post = [] := by
    cases post using List.reverseRecOn with
    | nil => rfl
    | append_singleton post x =>
      have hround := hwalk.right_of_append
      rw [← List.cons_append, List.append_assoc] at hround
      have hxy : r x y := (List.isChain_cons_cons.mp hround.right_of_append).1
      have hy' : y ∉ post ++ [x] := (List.nodup_cons.mp hnodup.of_append_right).1
      rw [hclosed x y hxy hy] at hy'
      exact absurd (List.mem_append_right post List.mem_cons_self) hy'
  rw [hpart, hpre, hpost]
  exact ⟨y, rfl, rfl⟩

/--
If another vertex has an edge to a vertex on a cycle, then there are lassos from both of them round the same cycle.
-/
theorem exists_two_isLasso {x y : α} (hxy : r x y) (hne : x ≠ y) (hy : TransGen r y y) :
    ∃ p a q b, IsLasso r (x :: p ++ [a]) ∧ IsLasso r (y :: q ++ [b]) ∧ y ∈ x :: p ∧
      (cyclePart (x :: p ++ [a])).IsRotated (cyclePart (y :: q ++ [b])) := by
  obtain ⟨q, hlasso⟩ := exists_isLasso_of_transGen hy
  obtain ⟨hwalk, hnodup, -⟩ := isLasso_concat_iff.mp hlasso
  by_cases hx : x ∈ q
  . -- the cycle goes through `x`, so it can be started there
    obtain ⟨q₁, q₂, rfl⟩ := List.append_of_mem hx
    have hrotated : (x :: (q₂ ++ y :: q₁)).IsRotated (y :: (q₁ ++ x :: q₂)) := by
      rw [← List.cons_append, ← List.cons_append]
      exact List.isRotated_append
    refine ⟨q₂ ++ y :: q₁, x, q₁ ++ x :: q₂, y, ?_, hlasso, by simp, ?_⟩
    . rw [isLasso_concat_iff]
      refine ⟨?_, hrotated.nodup_iff.mpr hnodup, List.mem_cons_self⟩
      have hto : (y :: q₁ ++ [x]).IsChain r := by
        have hsplit : y :: (q₁ ++ x :: q₂) ++ [y] = (y :: q₁ ++ [x]) ++ (q₂ ++ [y]) := by simp
        rw [hsplit] at hwalk
        exact hwalk.left_of_append
      have hfrom : (x :: q₂ ++ [y]).IsChain r := by
        have hsplit : y :: (q₁ ++ x :: q₂) ++ [y] = (y :: q₁) ++ (x :: q₂ ++ [y]) := by simp
        rw [hsplit] at hwalk
        exact hwalk.right_of_append
      have hjoin : x :: (q₂ ++ y :: q₁) ++ [x] = x :: q₂ ++ [y] ++ (q₁ ++ [x]) := by simp
      rw [hjoin]
      exact hfrom.append_overlap hto (List.cons_ne_nil y [])
    . rw [cyclePart_cons_concat, cyclePart_cons_concat]
      exact hrotated
  . -- `x` leads into the cycle
    refine ⟨y :: q, y, q, y, ?_, hlasso, by simp, ?_⟩
    . rw [isLasso_concat_iff, List.nodup_cons, List.mem_cons, not_or]
      refine ⟨?_, ⟨⟨hne, hx⟩, hnodup⟩, by simp⟩
      rw [List.cons_append, List.cons_append, List.isChain_cons_cons]
      exact ⟨hxy, hwalk⟩
    . have hpart : cyclePart ([x] ++ y :: q ++ [y]) = y :: q := cyclePart_split (by simpa using hne.symm)
      rw [List.singleton_append] at hpart
      rw [hpart, cyclePart_cons_concat]

end DirectedGraph
