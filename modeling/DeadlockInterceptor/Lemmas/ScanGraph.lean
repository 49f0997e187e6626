import DeadlockInterceptor.Lemmas.CombinedDetector

/-!
This module contains what the loop over the threads preserves while its resolutions change the wait-for
graph it searches: the graph only loses threads, and everything that is reported reaches a directed cycle of
the graph the loop started with.
-/

open Relation DirectedGraph

namespace DeadlockInterceptor

namespace World

theorem waits_of_resolveThreadDeadlock {env : ResolveEnv} {cycle : List ThreadName} {w w' : World}
    {res : Except Exn Unit} (h : w.resolveThreadDeadlock env cycle = (res, w')) :
    (∀ t ∈ w'.waitsFor, t ∈ w.waitsFor) ∧ w'.Waits ≤ w.Waits := by
  have herase : ∀ x, w'.waitsFor = w.waitsFor.erase x →
      (∀ t ∈ w'.waitsFor, t ∈ w.waitsFor) ∧ w'.Waits ≤ w.Waits := by
    intro x heq
    constructor
    . intro t ht
      rw [heq, AList.mem_erase] at ht
      exact ht.2
    . intro t u htu
      rw [Tracker.Waits, heq, AList.getD_erase] at htu
      split at htu
      . exact absurd htu (USet.notMem_empty u)
      . exact htu
  rcases (resolveThreadDeadlock_cases h).2 with ⟨heq, -⟩ | ⟨victim, tid, -, -, heq, -⟩ | ⟨victim, tid, -, heq, -⟩
  . refine ⟨fun t ht => heq ▸ ht, fun t u htu => ?_⟩
    rw [Tracker.Waits, heq] at htu
    exact htu
  . exact herase _ heq
  . exact herase _ heq

end World

namespace ScanState

variable {env : ThreadName → ResolveEnv} {w : World} {st st' : ScanState} {r : ThreadName}

structure Within (w : World) (st : ScanState) : Prop where
  mem : ∀ t ∈ st.world.waitsFor, t ∈ w.waitsFor
  waits : st.world.Waits ≤ w.Waits
  subset : st.stack ⊆ st.visited
  finished : dfsDeadlock.Finished st.world.waitsFor st.dfsState
  stack : ∀ y ∈ st.stack, ReachesCycle w.Waits y

theorem within_init (w : World) : Within w ⟨w, ∅, ∅⟩ where
  mem _ ht := ht
  waits := le_rfl
  subset := subset_rfl
  finished t ht := absurd ht (Finset.notMem_empty t)
  stack y hy := absurd hy (Finset.notMem_empty y)

/--
The vector `v` that a successful search from `r` reports. It may end on the stack of an earlier one, so it
need not contain a cycle, but it leads to one.
-/
structure Reported (w : World) (r : ThreadName) (v : List ThreadName) : Prop where
  walk : v.IsChain w.Waits
  head : v.head? = some r
  two_le_length : 2 ≤ v.length
  reaches : ∀ x ∈ v, ReachesCycle w.Waits x

theorem Within.called (h : Within w st) (hr : r ∉ st.visited) {b : Bool} {d : DfsState}
    (hd : dfsDeadlock st.world.waitsFor r st.dfsState = (b, d)) :
    dfsDeadlock.Called st.world.waitsFor r st.dfsState b d :=
  dfsDeadlock.called hd (fun hmem => hr (h.subset hmem)) h.subset h.finished

theorem Within.reported (h : Within w st) (hr : r ∉ st.visited) {d : DfsState}
    (hd : dfsDeadlock st.world.waitsFor r st.dfsState = (true, d)) :
    Reported w r d.cycle.reverse ∧ ∀ x ∈ d.stack, x ∈ st.stack ∨ x ∈ d.cycle.reverse := by
  obtain ⟨p, y, hfound⟩ := (h.called hr hd).found rfl
  have hv := hfound.reverse_cycle rfl
  have hwalk : (r :: p ++ [y]).IsChain w.Waits := hfound.walk.imp h.waits
  have hy : ReachesCycle w.Waits y := by
    by_cases hy : y ∈ r :: p
    . have hlasso := hfound.isLasso rfl hy
      rw [hv] at hlasso
      exact (hlasso.reachesCycle (List.mem_append_left [y] hy)).mono h.waits
    . -- the search ran into the stack of an earlier one
      apply h.stack
      rcases hfound.hit with hin | hin
      . rcases Finset.mem_insert.mp hin with rfl | hin
        . exact absurd List.mem_cons_self hy
        . exact hin
      . exact absurd (List.mem_cons_of_mem r hin) hy
  rw [hv]
  refine ⟨⟨hwalk, rfl, by simp, ?_⟩, ?_⟩
  . exact fun x hx => .of_reach (reach_to_last hwalk List.getLast?_concat hx) hy
  . intro x hx
    have hstack : d.stack = insert r st.stack ∪ p.toFinset := hfound.stack
    rw [hstack, Finset.mem_union, Finset.mem_insert, List.mem_toFinset] at hx
    rcases hx with (rfl | hx) | hx
    . exact .inr List.mem_cons_self
    . exact .inl hx
    . exact .inr (by simp [hx])

theorem Within.turn {env : ResolveEnv} (h : Within w st) (hturn : st.turn env r = .returned st') :
    Within w st' := by
  rcases turn_eq_returned hturn with ⟨-, rfl⟩ | ⟨-, hvis, b, d, hd, hvisited, hstack, hworld⟩
  . exact h
  . have hcalled := h.called hvis hd
    obtain ⟨hmem, hwaits⟩ :
        (∀ t ∈ st'.world.waitsFor, t ∈ st.world.waitsFor) ∧ st'.world.Waits ≤ st.world.Waits := by
      rcases hworld with heq | ⟨-, res, hres⟩
      . rw [heq]
        exact ⟨fun _ ht => ht, le_rfl⟩
      . exact World.waits_of_resolveThreadDeadlock hres
    refine ⟨fun t ht => h.mem t (hmem t ht), hwaits.trans h.waits, ?_, ?_, ?_⟩
    . rw [hvisited, hstack]
      exact hcalled.stack_subset
    . intro t ht hts hreach
      simp only [dfsState, hvisited, hstack] at ht hts
      exact hcalled.finished t ht hts (hreach.mono hwaits)
    . rw [hstack]
      cases b with
      | false =>
        rw [(hcalled.notFound rfl).1]
        exact h.stack
      | true =>
        obtain ⟨hreported, hin⟩ := h.reported hvis hd
        intro y hy
        rcases hin y hy with hy | hy
        . exact h.stack y hy
        . exact hreported.reaches y hy

theorem within_of_loop {keys : List ThreadName} (h : loop env keys ⟨w, ∅, ∅⟩ = .returned st) :
    Within w st :=
  loop_invariant (fun _ _ _ hst hturn => hst.turn hturn) h (within_init w)

end ScanState

end DeadlockInterceptor
