import Mathlib.Data.Finset.Card

/-!
This module contains the termination of depth first searches that are written with a bound on the depth of their
recursion. Each call enters a vertex that has not been visited, so a bound above the number of the vertices suffices.
-/

universe u v w

theorem Finset.card_sdiff_insert_lt {α : Type u} [DecidableEq α] {univ visited : Finset α} {a : α}
    (ha : a ∈ univ) (hvis : a ∉ visited) :
    (univ \ insert a visited).card < (univ \ visited).card := by
  rw [Finset.sdiff_insert]
  exact Finset.card_erase_lt_of_mem (Finset.mem_sdiff.mpr ⟨ha, hvis⟩)

namespace DepthFirst

variable {α : Type u} {σ : Type v} {ρ : Type w} [DecidableEq α]

/--
One turn of the loop over the neighbors, in the state `s` and for the vertex `n`: `dfs` is the recursive call and `scan`
the rest of the loop. `visited` are the visited vertices of a state and `state` is the state a result comes with.
-/
inductive Turn (visited : σ → Finset α) (state : ρ → σ) (dfs : α → σ → Option ρ) (scan : σ → Option ρ) (n : α)
    (s : σ) : Option ρ → Prop where
  | skip (s' : σ) (h : visited s' = visited s) : Turn visited state dfs scan n s (scan s')
  | done (r : ρ) (h : visited (state r) = visited s) : Turn visited state dfs scan n s (some r)
  | failed (hn : n ∉ visited s) (h : dfs n s = none) : Turn visited state dfs scan n s none
  | returned (r r' : ρ) (hn : n ∉ visited s) (h : dfs n s = some r) (hr' : visited (state r') = visited (state r)) :
    Turn visited state dfs scan n s (some r')
  | resumed (r : ρ) (hn : n ∉ visited s) (h : dfs n s = some r) : Turn visited state dfs scan n s (scan (state r))

/--
A depth first search of the vertices `nodes`, with the loop `scan` over the neighbors of a vertex. A call of `go` visits
its vertex, goes through the loop and leaves the vertex.
-/
structure IsSearch (visited : σ → Finset α) (state : ρ → σ) (nodes : Finset α)
    (scan : (α → σ → Option ρ) → α → List α → σ → Option ρ) (go : Nat → α → σ → Option ρ) : Prop where
  nil : ∀ dfs k s, ∃ r, scan dfs k [] s = some r ∧ visited (state r) = visited s
  cons : ∀ dfs k n l s, Turn visited state dfs (scan dfs k l) n s (scan dfs k (n :: l) s)
  zero : ∀ n s, go 0 n s = none
  succ : ∀ fuel n s, ∃ l s', ∃ leave : ρ → ρ, (∀ m ∈ l, m ∈ nodes) ∧ visited s' = insert n (visited s) ∧
    (∀ r, visited (state (leave r)) = visited (state r)) ∧ go (fuel + 1) n s = (scan (go fuel) n l s').map leave

namespace IsSearch

variable {visited : σ → Finset α} {state : ρ → σ} {nodes : Finset α}
  {scan : (α → σ → Option ρ) → α → List α → σ → Option ρ} {go : Nat → α → σ → Option ρ}

theorem scan_subset (h : IsSearch visited state nodes scan go) {dfs : α → σ → Option ρ}
    (hdfs : ∀ n s r, dfs n s = some r → visited s ⊆ visited (state r)) {k : α} {l : List α} {s : σ} {r : ρ}
    (hr : scan dfs k l s = some r) : visited s ⊆ visited (state r) := by
  induction l generalizing s with
  | nil =>
    obtain ⟨r', hr', hvisited⟩ := h.nil dfs k s
    obtain rfl : r' = r := Option.some.inj (hr'.symm.trans hr)
    rw [hvisited]
  | cons n l ih =>
    have hturn := h.cons dfs k n l s
    rw [hr] at hturn
    generalize hresult : some r = result at hturn
    cases hturn with
    | skip s' hs' =>
      rw [← hs']
      exact ih hresult.symm
    | done r' hr' =>
      rw [Option.some.inj hresult, hr']
    | failed _ _ => cases hresult
    | returned r₁ r₂ _ hr₁ hr₂ =>
      rw [Option.some.inj hresult, hr₂]
      exact hdfs n s r₁ hr₁
    | resumed r' _ hr' => exact (hdfs n s r' hr').trans (ih hresult.symm)

theorem insert_subset (h : IsSearch visited state nodes scan go) {fuel : Nat} {n : α} {s : σ} {r : ρ}
    (hr : go fuel n s = some r) : insert n (visited s) ⊆ visited (state r) := by
  induction fuel generalizing n s r with
  | zero =>
    rw [h.zero] at hr
    cases hr
  | succ fuel ih =>
    obtain ⟨l, s', leave, -, hs', hleave, hgo⟩ := h.succ fuel n s
    rw [hgo, Option.map_eq_some_iff] at hr
    obtain ⟨r', hr', rfl⟩ := hr
    rw [hleave, ← hs']
    exact h.scan_subset (fun m s r hm => (Finset.subset_insert m (visited s)).trans (ih hm)) hr'

/-- The measure are the vertices that have not been visited. -/
theorem isSome (h : IsSearch visited state nodes scan go) {fuel : Nat} {n : α} {s : σ}
    (hfuel : (nodes \ insert n (visited s)).card < fuel) : (go fuel n s).isSome := by
  induction fuel generalizing n s with
  | zero => cases hfuel
  | succ fuel ih =>
    have hscan : ∀ (l : List α) (s' : σ), (∀ m ∈ l, m ∈ nodes) → (nodes \ visited s').card < fuel + 1 →
        (scan (go fuel) n l s').isSome := by
      intro l
      induction l with
      | nil =>
        intro s' _ _
        obtain ⟨r, hr, -⟩ := h.nil (go fuel) n s'
        rw [hr]
        rfl
      | cons m l ihl =>
        intro s' hl hcard
        obtain ⟨hm, hl'⟩ := List.forall_mem_cons.mp hl
        have hcall : m ∉ visited s' → (go fuel m s').isSome := by
          intro hvis
          have hlt := Finset.card_sdiff_insert_lt hm hvis
          exact ih (by omega)
        have hturn := h.cons (go fuel) n m l s'
        generalize scan (go fuel) n (m :: l) s' = result at hturn
        cases hturn with
        | skip s'' hs'' =>
          apply ihl s'' hl'
          rwa [hs'']
        | done r _ => rfl
        | failed hvis hnone =>
          have hsome := hcall hvis
          rw [hnone] at hsome
          cases hsome
        | returned _ _ _ _ _ => rfl
        | resumed r _ hr =>
          apply ihl (state r) hl'
          have hsub : visited s' ⊆ visited (state r) := (Finset.subset_insert m (visited s')).trans (h.insert_subset hr)
          have hle := Finset.card_le_card (Finset.sdiff_subset_sdiff (Finset.Subset.refl nodes) hsub)
          omega
    obtain ⟨l, s', leave, hl, hs', -, hgo⟩ := h.succ fuel n s
    rw [hgo, Option.isSome_map]
    apply hscan l s' hl
    rwa [hs']

theorem isSome_of_card (h : IsSearch visited state nodes scan go) (n : α) (s : σ) :
    (go (nodes.card + 1) n s).isSome :=
  h.isSome (Nat.lt_succ_of_le (Finset.card_le_card Finset.sdiff_subset))

end IsSearch

end DepthFirst
