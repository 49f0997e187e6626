import DeadlockInterceptor.Impl.ThreadCycles
import DeadlockInterceptor.Graph.Lasso

/-!
This module contains what one call of `dfs_deadlock` finds and what it leaves behind in `visited` and
`stack`, for every graph and every order in which the sets of the graph are visited.
-/

open Relation DirectedGraph

namespace DeadlockInterceptor

namespace dfsDeadlock

variable {waitsFor : WaitsFor}

section fuel

theorem scan_mono {f g : ThreadName → DfsState → Option (Bool × DfsState)}
    (hfg : ∀ t s r, f t s = some r → g t s = some r) {t : ThreadName} {l : List ThreadName}
    {s : DfsState} {r : Bool × DfsState} (h : scan f t l s = some r) : scan g t l s = some r := by
  induction l generalizing s with
  | nil => exact h
  | cons n l ih =>
    unfold scan at h ⊢
    split
    . next hstack => rwa [if_pos hstack] at h
    . next hstack =>
      rw [if_neg hstack] at h
      split
      . next hvis =>
        rw [if_pos hvis] at h
        split at h
        . simp at h
        . next heq => rwa [hfg _ _ _ heq]
        . next heq =>
          rw [hfg _ _ _ heq]
          exact ih h
      . next hvis =>
        rw [if_neg hvis] at h
        exact ih h

theorem go_succ {fuel : Nat} {t : ThreadName} {s : DfsState} {r : Bool × DfsState}
    (h : go waitsFor fuel t s = some r) : go waitsFor (fuel + 1) t s = some r := by
  induction fuel generalizing t s r with
  | zero => simp [go] at h
  | succ fuel ih =>
    rw [go] at h ⊢
    split at h
    . simp at h
    . next heq => rwa [scan_mono (fun _ _ _ h => ih h) heq]
    . next heq => rwa [scan_mono (fun _ _ _ h => ih h) heq]

theorem go_mono {fuel fuel' : Nat} (hle : fuel ≤ fuel') {t : ThreadName} {s : DfsState}
    {r : Bool × DfsState} (h : go waitsFor fuel t s = some r) : go waitsFor fuel' t s = some r := by
  induction hle with
  | refl => exact h
  | step _ ih => exact go_succ ih

theorem eq_of_go {fuel : Nat} {t : ThreadName} {s : DfsState} {r : Bool × DfsState}
    (h : go waitsFor fuel t s = some r) : dfsDeadlock waitsFor t s = r := by
  have hsome := Option.some_get (go_isSome_of_targets waitsFor t s)
  have h1 := go_mono (Nat.le_max_left fuel (waitsFor.targets.card + 1)) h
  have h2 := go_mono (Nat.le_max_right fuel (waitsFor.targets.card + 1)) hsome.symm
  rw [h1] at h2
  exact (Option.some.inj h2).symm

end fuel

def Finished (waitsFor : WaitsFor) (s : DfsState) : Prop :=
  ∀ t ∈ s.visited, t ∉ s.stack → ¬ReachesCycle waitsFor.Edge t

/--
The search left `t` behind on the stack: it went from `t` over `p` and ran into `y`, which had been on
the stack of `s` or is `t` or on `p`.
-/
structure Found (waitsFor : WaitsFor) (t : ThreadName) (s s' : DfsState) (p : List ThreadName)
    (y : ThreadName) : Prop where
  walk : (t :: p ++ [y]).IsChain waitsFor.Edge
  nodup : p.Nodup
  unvisited : ∀ z ∈ p, z ∉ s.visited
  hit : y ∈ s.stack ∨ y ∈ p
  stack : s'.stack = s.stack ∪ p.toFinset
  cycle : s'.cycle = s.cycle ++ y :: (t :: p).reverse

structure Searched (waitsFor : WaitsFor) (s s' : DfsState) : Prop where
  visited : s.visited ⊆ s'.visited
  stack_subset : s'.stack ⊆ s'.visited
  finished : Finished waitsFor s'

structure Called (waitsFor : WaitsFor) (t : ThreadName) (s : DfsState) (b : Bool) (s' : DfsState) :
    Prop extends Searched waitsFor (enter t s) s' where
  notFound : b = false → s'.stack = s.stack ∧ s'.cycle = s.cycle
  found : b = true → ∃ p y, Found waitsFor t (enter t s) s' p y

theorem Found.cons {t u : ThreadName} {s s' : DfsState} {p : List ThreadName} {y : ThreadName}
    (h : Found waitsFor u (enter u s) s' p y) (hedge : waitsFor.Edge t u) (hu : u ∉ s.visited) :
    Found waitsFor t s { s' with cycle := s'.cycle ++ [t] } (u :: p) y where
  walk := by
    rw [List.cons_append, List.cons_append, List.isChain_cons_cons]
    exact ⟨hedge, h.walk⟩
  nodup := by
    rw [List.nodup_cons]
    refine ⟨?_, h.nodup⟩
    intro hmem
    exact h.unvisited u hmem (Finset.mem_insert_self u s.visited)
  unvisited := by
    intro z hz
    rcases List.mem_cons.mp hz with rfl | hz
    . exact hu
    . intro hvis
      exact h.unvisited z hz (Finset.mem_insert_of_mem hvis)
  hit := by
    rcases h.hit with hy | hy
    . rcases Finset.mem_insert.mp hy with rfl | hy
      . exact .inr List.mem_cons_self
      . exact .inl hy
    . exact .inr (List.mem_cons_of_mem u hy)
  stack := by
    have := h.stack
    simp only [enter] at this
    simp only [this, List.toFinset_cons, Finset.insert_union, Finset.union_insert]
  cycle := by
    have := h.cycle
    simp only [enter] at this
    simp [this]

theorem Found.of_left {t : ThreadName} {s s₂ s' : DfsState} {p : List ThreadName} {y : ThreadName}
    (h : Found waitsFor t s₂ s' p y) (hvis : s.visited ⊆ s₂.visited) (hstack : s₂.stack = s.stack)
    (hcycle : s₂.cycle = s.cycle) : Found waitsFor t s s' p y where
  walk := h.walk
  nodup := h.nodup
  unvisited z hz hin := h.unvisited z hz (hvis hin)
  hit := by
    rw [← hstack]
    exact h.hit
  stack := by
    rw [← hstack]
    exact h.stack
  cycle := by
    rw [← hcycle]
    exact h.cycle

theorem scan_spec {dfs : ThreadName → DfsState → Option (Bool × DfsState)}
    (hdfs : ∀ u s b s', dfs u s = some (b, s') → u ∉ s.stack → s.stack ⊆ s.visited →
      Finished waitsFor s → Called waitsFor u s b s')
    {t : ThreadName} {l : List ThreadName} {s s' : DfsState} {b : Bool}
    (h : scan dfs t l s = some (b, s')) (hl : ∀ u ∈ l, waitsFor.Edge t u)
    (hsub : s.stack ⊆ s.visited) (hfin : Finished waitsFor s) :
    Searched waitsFor s s' ∧
      (b = false → s'.stack = s.stack ∧ s'.cycle = s.cycle ∧
        ∀ u ∈ l, ¬ReachesCycle waitsFor.Edge u) ∧
      (b = true → ∃ p y, Found waitsFor t s s' p y) := by
  induction l generalizing s with
  | nil =>
    simp only [scan, Option.some.injEq, Prod.mk.injEq] at h
    obtain ⟨rfl, rfl⟩ := h
    exact ⟨⟨subset_rfl, hsub, hfin⟩, by simp, by simp⟩
  | cons n l ih =>
    have hn : waitsFor.Edge t n := hl n List.mem_cons_self
    have hl' : ∀ u ∈ l, waitsFor.Edge t u := fun u hu => hl u (List.mem_cons_of_mem n hu)
    unfold scan at h
    split at h
    . next hstack =>
      simp only [Option.some.injEq, Prod.mk.injEq] at h
      obtain ⟨rfl, rfl⟩ := h
      refine ⟨⟨subset_rfl, hsub, hfin⟩, by simp, fun _ => ⟨[], n, ?_⟩⟩
      exact ⟨by simpa using hn, .nil, by simp, .inl hstack, by simp, by simp⟩
    . next hstack =>
      split at h
      . next hvis =>
        split at h
        . simp at h
        . next s2 heq =>
          simp only [Option.some.injEq, Prod.mk.injEq] at h
          obtain ⟨rfl, rfl⟩ := h
          have hcalled := hdfs _ _ _ _ heq hstack hsub hfin
          obtain ⟨p, y, hfound⟩ := hcalled.found rfl
          refine ⟨⟨?_, hcalled.stack_subset, hcalled.finished⟩, by simp, ?_⟩
          . exact (Finset.subset_insert n s.visited).trans hcalled.visited
          . exact fun _ => ⟨n :: p, y, hfound.cons hn hvis⟩
        . next s2 heq =>
          have hcalled := hdfs _ _ _ _ heq hstack hsub hfin
          obtain ⟨hstack2, hcycle2⟩ := hcalled.notFound rfl
          have hvis2 : s.visited ⊆ s2.visited :=
            (Finset.subset_insert n s.visited).trans hcalled.visited
          obtain ⟨hsearched, hfalse, htrue⟩ := ih h hl' hcalled.stack_subset hcalled.finished
          have hreach : ¬ReachesCycle waitsFor.Edge n := by
            apply hcalled.finished
            . exact hcalled.visited (Finset.mem_insert_self n s.visited)
            . rwa [hstack2]
          refine ⟨⟨hvis2.trans hsearched.visited, hsearched.stack_subset, hsearched.finished⟩, ?_, ?_⟩
          . intro hb
            obtain ⟨h1, h2, h3⟩ := hfalse hb
            refine ⟨h1.trans hstack2, h2.trans hcycle2, ?_⟩
            intro u hu
            rcases List.mem_cons.mp hu with rfl | hu
            . exact hreach
            . exact h3 u hu
          . intro hb
            obtain ⟨p, y, hfound⟩ := htrue hb
            exact ⟨p, y, hfound.of_left hvis2 hstack2 hcycle2⟩
      . next hvis =>
        obtain ⟨hsearched, hfalse, htrue⟩ := ih h hl' hsub hfin
        refine ⟨hsearched, ?_, htrue⟩
        intro hb
        obtain ⟨h1, h2, h3⟩ := hfalse hb
        refine ⟨h1, h2, ?_⟩
        intro u hu
        rcases List.mem_cons.mp hu with rfl | hu
        . exact hfin u (not_not.mp hvis) hstack
        . exact h3 u hu

theorem go_spec {fuel : Nat} {t : ThreadName} {s s' : DfsState} {b : Bool}
    (h : go waitsFor fuel t s = some (b, s')) (ht : t ∉ s.stack) (hsub : s.stack ⊆ s.visited)
    (hfin : Finished waitsFor s) : Called waitsFor t s b s' := by
  induction fuel generalizing t s b s' with
  | zero => simp [go] at h
  | succ fuel ih =>
    have hsub' : (enter t s).stack ⊆ (enter t s).visited := Finset.insert_subset_insert t hsub
    have hfin' : Finished waitsFor (enter t s) := by
      intro u hu hus
      rw [enter, Finset.mem_insert, not_or] at hus
      rcases Finset.mem_insert.mp hu with rfl | hu
      . exact absurd rfl hus.1
      . exact hfin u hu hus.2
    have hedge : ∀ u ∈ (waitsFor.getD t ∅).toList, waitsFor.Edge t u := fun u hu => hu
    unfold go at h
    split at h
    . simp at h
    . next s2 heq =>
      simp only [Option.some.injEq, Prod.mk.injEq] at h
      obtain ⟨rfl, rfl⟩ := h
      obtain ⟨hsearched, -, htrue⟩ := scan_spec (fun _ _ _ _ h h1 h2 h3 => ih h h1 h2 h3) heq hedge
        hsub' hfin'
      exact ⟨hsearched, by simp, htrue⟩
    . next s2 heq =>
      simp only [Option.some.injEq, Prod.mk.injEq] at h
      obtain ⟨rfl, rfl⟩ := h
      obtain ⟨hsearched, hfalse, -⟩ := scan_spec (fun _ _ _ _ h h1 h2 h3 => ih h h1 h2 h3) heq hedge
        hsub' hfin'
      obtain ⟨hstack2, hcycle2, hreach⟩ := hfalse rfl
      have hpop : s2.stack.erase t = s.stack := by
        rw [hstack2]
        exact Finset.erase_insert ht
      refine ⟨⟨hsearched.visited, ?_, ?_⟩, fun _ => ⟨hpop, hcycle2⟩, by simp⟩
      . exact (Finset.erase_subset t s2.stack).trans hsearched.stack_subset
      . -- `t` is the thread that is left now, and none of its neighbors reaches a cycle
        intro u hu hus
        by_cases hut : u = t
        . subst hut
          rw [reachesCycle_iff]
          rintro ⟨v, huv, hv⟩
          exact hreach v huv hv
        . apply hsearched.finished u hu
          intro hmem
          exact hus (Finset.mem_erase.mpr ⟨hut, hmem⟩)

theorem called {t : ThreadName} {s s' : DfsState} {b : Bool}
    (h : dfsDeadlock waitsFor t s = (b, s')) (ht : t ∉ s.stack) (hsub : s.stack ⊆ s.visited)
    (hfin : Finished waitsFor s) : Called waitsFor t s b s' := by
  have hgo : go waitsFor (waitsFor.targets.card + 1) t s = some (b, s') := by
    rw [← h]
    exact (Option.some_get _).symm
  exact go_spec hgo ht hsub hfin

end dfsDeadlock

end DeadlockInterceptor
