import DeadlockInterceptor.Lemmas.CombinedDetector
import DeadlockInterceptor.Lemmas.Step

/-!
This module contains that cycles of the wait-for graph come up at waits only, and that a search from the
waiting thread then finds one.
-/

open Relation DirectedGraph

namespace DeadlockInterceptor

namespace dfsDeadlock

variable {waitsFor : WaitsFor} {t : ThreadName}

theorem Found.hit_fresh {s : DfsState} {p : List ThreadName} {y : ThreadName}
    (h : Found waitsFor t (enter t .fresh) s p y) : y ∈ t :: p := by
  rcases h.hit with hy | hy
  . rw [enter, DfsState.fresh, Finset.mem_insert] at hy
    rw [hy.resolve_right (Finset.notMem_empty y)]
    exact List.mem_cons_self
  . exact List.mem_cons_of_mem t hy

theorem fresh_eq_true_iff :
    (dfsDeadlock waitsFor t .fresh).1 = true ↔ ReachesCycle waitsFor.Edge t := by
  have hcall := Prod.mk.eta (p := dfsDeadlock waitsFor t .fresh)
  have hcalled := called hcall.symm (Finset.notMem_empty t) (Finset.empty_subset _)
    (fun u hu => absurd hu (Finset.notMem_empty u))
  constructor
  . intro h
    obtain ⟨p, y, hfound⟩ := hcalled.found h
    have hlasso := hfound.isLasso rfl hfound.hit_fresh
    rw [hfound.reverse_cycle rfl] at hlasso
    exact hlasso.reachesCycle List.mem_cons_self
  . intro h
    by_contra hfalse
    rw [Bool.not_eq_true] at hfalse
    apply hcalled.finished t _ _ h
    . exact hcalled.visited (Finset.mem_insert_self t _)
    . rw [(hcalled.notFound hfalse).1]
      exact Finset.notMem_empty t

end dfsDeadlock

namespace GlobalState

variable {s : GlobalState} {env : Env} {tid : Pid} {a : Addr}

theorem waits_of_onWait {t u : ThreadName} (h : (s.onWait env tid a).Waits t u)
    (ht : t ≠ (s.threadIdentifier env.proc tid).1) : s.Waits t u := by
  unfold onWait at h
  split at h
  . exact h
  . have hcases := (Tracker.onWait_waits _ _ _ _ _ _).mp h
    apply hcases.resolve_right
    rintro ⟨heq, -⟩
    apply ht
    exact heq

/--
Starting from a graph without cycles only a wait can close one, and then a fresh search from the waiting
thread finds it, in every order of the containers. So it finds something exactly if any search does.
-/
theorem cycle_born_at_wait (s : GlobalState) (hacyclic : ∀ cyc, ¬IsCycle s.Waits cyc) (env : Env)
    (tid : Pid) (a : Addr) :
    (∀ cyc, ¬IsCycle (s.onLock env tid a).Waits cyc) ∧
    (∀ cyc, ¬IsCycle (s.onWake env tid a).Waits cyc) ∧
    ∀ waitsFor, (s.onWait env tid a).waitsFor.Same waitsFor →
      ((∃ cyc, IsCycle (s.onWait env tid a).Waits cyc)
        ↔
        (dfsDeadlock waitsFor (s.threadIdentifier env.proc tid).1 .fresh).1 = true) ∧
      ((∃ root, (dfsDeadlock waitsFor root .fresh).1 = true)
        ↔
        (dfsDeadlock waitsFor (s.threadIdentifier env.proc tid).1 .fresh).1 = true) := by
  refine ⟨?_, ?_, ?_⟩
  . intro cyc hcyc
    exact hacyclic cyc (hcyc.mono onLock_waits_le)
  . intro cyc hcyc
    exact hacyclic cyc (hcyc.mono onWake_waits_le)
  . intro waitsFor hsame
    have hout : ∀ t u, (s.onWait env tid a).Waits t u → t ≠ (s.threadIdentifier env.proc tid).1 →
        s.Waits t u := fun t u => waits_of_onWait
    have hborn := exists_isCycle_iff_of_out hacyclic hout
    have hedge : waitsFor.Edge = (s.onWait env tid a).Waits := hsame.edge_eq
    simp only [dfsDeadlock.fresh_eq_true_iff, hedge]
    refine ⟨hborn, ?_, ?_⟩
    . rintro ⟨root, hroot⟩
      exact hborn.mp hroot.exists_isCycle
    . intro h
      exact ⟨_, h⟩

def halfCrossed : GlobalState :=
  run [⟨.wake, 1, 0x10000, .bare⟩, ⟨.wake, 2, 0x10010, .bare⟩, ⟨.wait, 2, 0x10000, .bare⟩]

theorem not_isCycle_halfCrossed (cyc : List ThreadName) : ¬IsCycle halfCrossed.Waits cyc := by
  refine not_isCycle_of_no_walk ?_ cyc
  intro x y z hxy hyz
  obtain ⟨entry, hentry, -, hy⟩ := WaitsFor.edge_iff.mp hxy
  have hnone : ∀ entry ∈ halfCrossed.waitsFor.entries, ∀ y ∈ entry.2.toList, y ∉ halfCrossed.waitsFor := by decide
  exact hnone entry hentry y hy (WaitsFor.Edge.mem hyz)

theorem cycle_born_at_wait_halfCrossed :
    (∃ cyc, IsCycle (halfCrossed.onWait .bare 1 0x10010).Waits cyc) ∧
    ∀ cyc, ¬IsCycle (halfCrossed.onWake .bare 1 0x10000).Waits cyc := by
  have hborn := cycle_born_at_wait halfCrossed not_isCycle_halfCrossed .bare 1
  exact ⟨((hborn 0x10010).2.2 _ (.refl _)).1.mpr (by decide), (hborn 0x10000).2.1⟩

end GlobalState

end DeadlockInterceptor
