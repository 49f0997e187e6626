import DeadlockInterceptor.Lemmas.DfsDeadlock

/-!
This module contains the iteration orders of the wait-for graph. The search depends on them, so a property of
all orders is a property of all maps with the same entries, and a walk can be made the one that the search
takes by moving its threads to the front of the sets they are in.
-/

open Relation DirectedGraph

namespace DeadlockInterceptor

namespace WaitsFor

theorem Same.refl (w : WaitsFor) : Same w w := ⟨fun _ => Iff.rfl, fun _ _ => Iff.rfl⟩

theorem Same.symm {w w' : WaitsFor} (h : Same w w') : Same w' w :=
  ⟨fun t => (h.mem t).symm, fun t u => (h.edge t u).symm⟩

theorem Same.trans {w w' w'' : WaitsFor} (h : Same w w') (h' : Same w' w'') : Same w w'' :=
  ⟨fun t => (h'.mem t).trans (h.mem t), fun t u => (h'.edge t u).trans (h.edge t u)⟩

theorem Same.edge_eq {w w' : WaitsFor} (h : Same w w') : w'.Edge = w.Edge := by
  funext t u
  exact propext (h.edge t u)

theorem Edge.mem {w : WaitsFor} {t u : ThreadName} (h : w.Edge t u) : t ∈ w := by
  by_contra hmem
  unfold Edge AList.getD at h
  rw [AList.lookup_eq_none.mpr hmem] at h
  exact absurd h (USet.notMem_empty u)

/--
The map in an order that visits the threads of a walk first and the next one of each of them first.
-/
def steer (w : WaitsFor) : List ThreadName → WaitsFor
  | t :: u :: rest => (steer w (u :: rest)).insert t ((w.getD t ∅).front u)
  | _ => w

theorem steer_same {w : WaitsFor} {v : List ThreadName} (hv : v.IsChain w.Edge) :
    Same w (w.steer v) := by
  induction v using steer.induct with
  | case1 t u rest ih =>
    rw [List.isChain_cons_cons] at hv
    have hsame := ih hv.2
    constructor
    . intro x
      rw [steer, AList.mem_insert, hsame.mem]
      constructor
      . rintro (rfl | h)
        . exact hv.1.mem
        . exact h
      . exact .inr
    . intro x y
      rw [Edge, steer, AList.getD_insert]
      split
      . next hx =>
        subst hx
        exact USet.mem_front
      . exact hsame.edge x y
  | case2 v hv' =>
    rw [steer]
    . exact .refl w
    . exact hv'

def First (w : WaitsFor) (t u : ThreadName) : Prop := (w.getD t ∅).toList.head? = some u

theorem steer_getD_of_notMem {w : WaitsFor} {p : List ThreadName} {y x : ThreadName} (hx : x ∉ p) :
    (w.steer (p ++ [y])).getD x ∅ = w.getD x ∅ := by
  induction p with
  | nil => rfl
  | cons t p ih =>
    rw [List.mem_cons, not_or] at hx
    have hrest := ih hx.2
    cases p with
    | nil =>
      rw [List.cons_append, List.nil_append, steer, AList.getD_insert, if_neg hx.1]
      exact hrest
    | cons u p =>
      rw [List.cons_append, List.cons_append, steer, AList.getD_insert, if_neg hx.1]
      exact hrest

theorem steer_first {w : WaitsFor} {p : List ThreadName} {y : ThreadName}
    (hv : (p ++ [y]).IsChain w.Edge) (hnodup : p.Nodup) :
    (p ++ [y]).IsChain (First (w.steer (p ++ [y]))) := by
  -- the entries of the walk before a thread do not concern it
  have hinsert : ∀ {q : List ThreadName} {z t : ThreadName} {waits : USet ThreadName} {w' : WaitsFor},
      t ∉ q → (q ++ [z]).IsChain (First w') → (q ++ [z]).IsChain (First (w'.insert t waits)) := by
    intro q z t waits w' ht hq
    rw [List.isChain_iff_getElem] at hq ⊢
    intro i hi
    have hne : (q ++ [z])[i] ≠ t := by
      have hlt : i < q.length := by
        rw [List.length_append, List.length_singleton] at hi
        omega
      rw [List.getElem_append_left hlt]
      rintro rfl
      exact ht (List.getElem_mem hlt)
    rw [First, AList.getD_insert, if_neg hne]
    exact hq i hi
  induction p with
  | nil => exact List.isChain_singleton y
  | cons t p ih =>
    rw [List.nodup_cons] at hnodup
    cases p with
    | nil =>
      rw [List.cons_append, List.nil_append] at hv ⊢
      rw [List.isChain_cons_cons] at hv ⊢
      refine ⟨?_, List.isChain_singleton y⟩
      rw [First, steer, AList.getD_insert, if_pos rfl]
      exact USet.head?_front hv.1
    | cons u p =>
      rw [List.cons_append, List.cons_append] at hv ⊢
      rw [List.isChain_cons_cons] at hv ⊢
      refine ⟨?_, hinsert (q := u :: p) hnodup.1 (ih hv.2 hnodup.2)⟩
      rw [First, steer, AList.getD_insert, if_pos rfl]
      exact USet.head?_front hv.1

theorem keys_steer {w : WaitsFor} {p : List ThreadName} {y : ThreadName} (hnodup : p.Nodup) :
    (w.steer (p ++ [y])).keys = p ++ w.keys.filter (· ∉ p) := by
  induction p with
  | nil => simp [steer]
  | cons t p ih =>
    rw [List.nodup_cons] at hnodup
    have hkeys : (w.steer (t :: p ++ [y])).keys
        = t :: (w.steer (p ++ [y])).keys.filter (· ≠ t) := by
      cases p with
      | nil =>
        rw [List.cons_append, List.nil_append, steer]
        exact AList.keys_insert_eq _ _ _
      | cons u p =>
        rw [List.cons_append, List.cons_append, steer]
        exact AList.keys_insert_eq _ _ _
    have hp : p.filter (· ≠ t) = p := by
      rw [List.filter_eq_self]
      intro x hx
      have : x ≠ t := by
        rintro rfl
        exact hnodup.1 hx
      simpa using this
    rw [hkeys, ih hnodup.2, List.filter_append, hp, List.filter_filter, List.cons_append]
    congr 2
    apply List.filter_congr
    intro x _
    simp [not_or]

end WaitsFor

theorem Tracker.Same.refl (s : Tracker) : s.Same s :=
  ⟨fun _ => rfl, rfl, .refl _, fun _ => Iff.rfl, fun _ _ => Iff.rfl, fun _ => rfl, rfl⟩

namespace dfsDeadlock

variable {waitsFor : WaitsFor}

theorem go_of_first {t y : ThreadName} {p : List ThreadName} {s : DfsState}
    (hwalk : (t :: p ++ [y]).IsChain waitsFor.First) (hnodup : (t :: p).Nodup)
    (hfresh : ∀ z ∈ p, z ∉ s.visited) (hsub : s.stack ⊆ s.visited)
    (hy : y ∈ (enter t s).stack ∨ y ∈ p) {fuel : Nat} (hfuel : p.length < fuel) :
    go waitsFor fuel t s
      =
    some (true, ⟨s.visited ∪ (t :: p).toFinset, s.stack ∪ (t :: p).toFinset,
      s.cycle ++ y :: (t :: p).reverse⟩) := by
  induction p generalizing t s fuel with
  | nil =>
    obtain ⟨fuel, rfl⟩ : ∃ f, fuel = f + 1 := ⟨fuel - 1, by simp at hfuel; omega⟩
    rw [List.cons_append, List.nil_append, List.isChain_cons_cons] at hwalk
    obtain ⟨rest, hlist⟩ := List.head?_eq_some_iff.mp hwalk.1
    have hstack : y ∈ (enter t s).stack := hy.resolve_right (by simp)
    have hscan : scan (go waitsFor fuel) t (waitsFor.getD t ∅).toList (enter t s)
        = some (true, { enter t s with cycle := (enter t s).cycle ++ [y, t] }) := by
      rw [hlist, scan, if_pos hstack]
    rw [go, hscan]
    simp [enter]
  | cons u p ih =>
    obtain ⟨fuel, rfl⟩ : ∃ f, fuel = f + 1 := ⟨fuel - 1, by simp at hfuel; omega⟩
    rw [List.cons_append, List.cons_append, List.isChain_cons_cons] at hwalk
    obtain ⟨rest, hlist⟩ := List.head?_eq_some_iff.mp hwalk.1
    rw [List.nodup_cons, List.mem_cons, not_or] at hnodup
    have huvis : u ∉ (enter t s).visited := by
      rw [enter, Finset.mem_insert, not_or]
      exact ⟨Ne.symm hnodup.1.1, hfresh u List.mem_cons_self⟩
    have hsub' : (enter t s).stack ⊆ (enter t s).visited := Finset.insert_subset_insert t hsub
    have hcall : go waitsFor fuel u (enter t s) = _ := ih hwalk.2 hnodup.2 (by
      intro z hz
      rw [enter, Finset.mem_insert, not_or]
      refine ⟨?_, hfresh z (List.mem_cons_of_mem u hz)⟩
      rintro rfl
      exact hnodup.1.2 hz) hsub' (by
      rcases hy with hy | hy
      . exact .inl (Finset.mem_insert_of_mem hy)
      . rcases List.mem_cons.mp hy with rfl | hy
        . exact .inl (Finset.mem_insert_self _ _)
        . exact .inr hy) (by simp at hfuel; omega)
    have hscan : scan (go waitsFor fuel) t (waitsFor.getD t ∅).toList (enter t s)
        = some (true, ⟨(enter t s).visited ∪ (u :: p).toFinset, (enter t s).stack ∪ (u :: p).toFinset,
            (enter t s).cycle ++ y :: (u :: p).reverse ++ [t]⟩) := by
      rw [hlist, scan, if_neg (fun h => huvis (hsub' h)), if_pos huvis, hcall]
    rw [go, hscan]
    simp [enter, Finset.insert_union, Finset.union_insert, Finset.insert_comm]

/--
A lasso from `t` over threads that have not been visited is what the search reports in some iteration order.
-/
theorem eq_of_first {t y : ThreadName} {p : List ThreadName} {s : DfsState}
    (hwalk : (t :: p ++ [y]).IsChain waitsFor.First) (hnodup : (t :: p).Nodup)
    (hfresh : ∀ z ∈ p, z ∉ s.visited) (hsub : s.stack ⊆ s.visited)
    (hy : y ∈ (enter t s).stack ∨ y ∈ p) :
    dfsDeadlock waitsFor t s
      =
    (true, ⟨s.visited ∪ (t :: p).toFinset, s.stack ∪ (t :: p).toFinset,
      s.cycle ++ y :: (t :: p).reverse⟩) :=
  eq_of_go (go_of_first hwalk hnodup hfresh hsub hy (Nat.lt_succ_self p.length))

theorem fresh_eq_of_first {t y : ThreadName} {p : List ThreadName}
    (hlasso : IsLasso waitsFor.Edge (t :: p ++ [y])) (hfirst : (t :: p ++ [y]).IsChain waitsFor.First) :
    dfsDeadlock waitsFor t .fresh
      =
    (true, ⟨(t :: p).toFinset, (t :: p).toFinset, y :: (t :: p).reverse⟩) := by
  obtain ⟨-, hnodup, hy⟩ := isLasso_concat_iff.mp hlasso
  have hhit : y ∈ (enter t .fresh).stack ∨ y ∈ p := by
    rcases List.mem_cons.mp hy with rfl | hy
    . exact .inl (Finset.mem_insert_self y ∅)
    . exact .inr hy
  rw [eq_of_first hfirst hnodup (fun z _ => Finset.notMem_empty z) subset_rfl hhit]
  simp only [DfsState.fresh, Finset.empty_union, List.nil_append]

theorem of_isLasso {t y : ThreadName} {p : List ThreadName}
    (hlasso : IsLasso waitsFor.Edge (t :: p ++ [y])) :
    waitsFor.Same (waitsFor.steer (t :: p ++ [y])) ∧
      dfsDeadlock (waitsFor.steer (t :: p ++ [y])) t .fresh
        = (true, ⟨(t :: p).toFinset, (t :: p).toFinset, y :: (t :: p).reverse⟩) ∧
      (waitsFor.steer (t :: p ++ [y])).keys = t :: (p ++ waitsFor.keys.filter (· ∉ t :: p)) := by
  obtain ⟨hwalk, hnodup, -⟩ := isLasso_concat_iff.mp hlasso
  have hsame := WaitsFor.steer_same hwalk
  refine ⟨hsame, fresh_eq_of_first ?_ (WaitsFor.steer_first hwalk hnodup), WaitsFor.keys_steer hnodup⟩
  rwa [hsame.edge_eq]

end dfsDeadlock

end DeadlockInterceptor
