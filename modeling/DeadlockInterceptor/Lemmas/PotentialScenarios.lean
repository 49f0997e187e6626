import DeadlockInterceptor.Impl.Analysis
import DeadlockInterceptor.Impl.Monitoring
import DeadlockInterceptor.Lemmas.GroupCycles

/-!
This module contains that `find_potential_deadlock_scenarios` lists the cycles of two and of three threads, each
of them once for every thread it can start with.
-/

namespace DeadlockInterceptor

inductive ShortCycle (w : WaitsFor) : List ThreadName → Prop where
  | two {a b : ThreadName} (hab : a ≠ b) (habw : w.Edge a b) (hbaw : w.Edge b a) : ShortCycle w [a, b]
  | three {a b c : ThreadName} (hab : a ≠ b) (hbc : b ≠ c) (hca : c ≠ a) (habw : w.Edge a b)
      (hbcw : w.Edge b c) (hcaw : w.Edge c a) : ShortCycle w [a, b, c]

namespace findPotentialDeadlockScenarios

variable {w : WaitsFor} {t u x y : ThreadName} {v : List ThreadName}

theorem ofTarget1_eq (w : WaitsFor) (t u : ThreadName) :
    ofTarget1 w t u = (w.getD u ∅).toList.flatMap (ofTarget2 w t u) := by
  unfold ofTarget1 AList.getD
  cases w.lookup u <;> rfl

theorem ofTarget2_of_ne (h : x ≠ t) :
    ofTarget2 w t u x = (w.getD x ∅).toList.flatMap (ofTarget3 t u x) := by
  rw [ofTarget2, if_neg h, AList.getD]
  cases w.lookup x <;> rfl

theorem mem_ofTarget3 : v ∈ ofTarget3 t u x y ↔ y = t ∧ v = [t, u, x] := by
  unfold ofTarget3
  split
  . next h => simp [h]
  . next h => simp [h]

theorem mem_ofTarget2 :
    v ∈ ofTarget2 w t u x ↔ (x = t ∧ v = [t, u]) ∨ (x ≠ t ∧ w.Edge x t ∧ v = [t, u, x]) := by
  by_cases h : x = t
  . rw [ofTarget2, if_pos h]
    simp [h]
  . rw [ofTarget2_of_ne h, List.mem_flatMap]
    simp only [mem_ofTarget3, h, false_and, ne_eq, not_false_eq_true, true_and, false_or]
    constructor
    . rintro ⟨y, hy, rfl, hv⟩
      exact ⟨hy, hv⟩
    . rintro ⟨hedge, hv⟩
      exact ⟨t, hedge, rfl, hv⟩

theorem mem_ofTarget1 : v ∈ ofTarget1 w t u ↔ ∃ x, w.Edge u x ∧ v ∈ ofTarget2 w t u x := by
  rw [ofTarget1_eq, List.mem_flatMap]
  rfl

theorem mem_iff : v ∈ findPotentialDeadlockScenarios w ↔ ∃ t u, w.Edge t u ∧ v ∈ ofTarget1 w t u := by
  simp only [findPotentialDeadlockScenarios, List.mem_flatMap]
  constructor
  . rintro ⟨entry, hentry, u, hu, hv⟩
    exact ⟨entry.1, u, WaitsFor.edge_iff.mpr ⟨entry, hentry, rfl, hu⟩, hv⟩
  . rintro ⟨t, u, htu, hv⟩
    obtain ⟨entry, hentry, rfl, hu⟩ := WaitsFor.edge_iff.mp htu
    exact ⟨entry, hentry, u, hu, hv⟩

theorem exists_eq_of_mem_ofTarget1 (h : v ∈ ofTarget1 w t u) : ∃ rest, v = t :: u :: rest := by
  obtain ⟨x, -, hv⟩ := mem_ofTarget1.mp h
  rcases mem_ofTarget2.mp hv with ⟨-, rfl⟩ | ⟨-, -, rfl⟩
  . exact ⟨[], rfl⟩
  . exact ⟨[x], rfl⟩

theorem nodup_ofTarget2 : (ofTarget2 w t u x).Nodup := by
  by_cases h : x = t
  . rw [ofTarget2, if_pos h]
    exact List.nodup_singleton _
  . rw [ofTarget2_of_ne h]
    apply (w.getD x ∅).nodup.flatMap_of
    . intro y _
      unfold ofTarget3
      split
      . exact List.nodup_singleton _
      . exact List.nodup_nil
    . intro y _ y' _ v hy hy'
      rw [(mem_ofTarget3.mp hy).1, (mem_ofTarget3.mp hy').1]

theorem nodup_ofTarget1 : (ofTarget1 w t u).Nodup := by
  rw [ofTarget1_eq]
  apply (w.getD u ∅).nodup.flatMap_of
  . exact fun x _ => nodup_ofTarget2
  . intro x _ x' _ v hx hx'
    rcases mem_ofTarget2.mp hx with ⟨rfl, rfl⟩ | ⟨-, -, rfl⟩
    . rcases mem_ofTarget2.mp hx' with ⟨rfl, -⟩ | ⟨-, -, heq⟩
      . rfl
      . cases heq
    . rcases mem_ofTarget2.mp hx' with ⟨-, heq⟩ | ⟨-, -, heq⟩
      . cases heq
      . injections

theorem nodup (w : WaitsFor) : (findPotentialDeadlockScenarios w).Nodup := by
  apply w.nodupKeys.nodup.flatMap_of
  . intro entry _
    apply entry.2.nodup.flatMap_of
    . exact fun u _ => nodup_ofTarget1
    . intro u _ u' _ v hu hu'
      obtain ⟨rest, rfl⟩ := exists_eq_of_mem_ofTarget1 hu
      obtain ⟨rest', heq⟩ := exists_eq_of_mem_ofTarget1 hu'
      injections
  . intro entry hentry entry' hentry' v hv hv'
    obtain ⟨u, -, hu⟩ := List.mem_flatMap.mp hv
    obtain ⟨u', -, hu'⟩ := List.mem_flatMap.mp hv'
    obtain ⟨rest, rfl⟩ := exists_eq_of_mem_ofTarget1 hu
    obtain ⟨rest', heq⟩ := exists_eq_of_mem_ofTarget1 hu'
    exact w.nodupKeys.eq_of_fst_eq hentry hentry' (List.cons.inj heq).1

end findPotentialDeadlockScenarios

open findPotentialDeadlockScenarios in
/--
If no thread waits for itself then the list has the cycles of two and three threads and nothing else, and it has
nothing twice.
-/
theorem findPotentialDeadlockScenarios_exact (w : WaitsFor) (hself : ∀ t, ¬w.Edge t t) :
    (findPotentialDeadlockScenarios w).Nodup ∧
      ∀ v, v ∈ findPotentialDeadlockScenarios w ↔ ShortCycle w v := by
  refine ⟨nodup w, ?_⟩
  have hne : ∀ {t u : ThreadName}, w.Edge t u → t ≠ u := by
    rintro t u htu rfl
    exact hself t htu
  intro v
  rw [mem_iff]
  constructor
  . rintro ⟨t, u, htu, hv⟩
    obtain ⟨x, hux, hv⟩ := mem_ofTarget1.mp hv
    rcases mem_ofTarget2.mp hv with ⟨rfl, rfl⟩ | ⟨hxt, hxtw, rfl⟩
    . exact .two (hne htu) htu hux
    . exact .three (hne htu) (hne hux) hxt htu hux hxtw
  . intro hv
    cases hv with
    | @two a b hab habw hbaw =>
      exact ⟨a, b, habw, mem_ofTarget1.mpr ⟨a, hbaw, mem_ofTarget2.mpr (.inl ⟨rfl, rfl⟩)⟩⟩
    | @three a b c hab hbc hca habw hbcw hcaw =>
      exact ⟨a, b, habw, mem_ofTarget1.mpr ⟨c, hbcw, mem_ofTarget2.mpr (.inr ⟨hca, hcaw, rfl⟩)⟩⟩

namespace GlobalState

def shortCyclesRun : List Event :=
  [⟨.wake, 1, 0x10000, .bare⟩, ⟨.wake, 2, 0x10010, .bare⟩, ⟨.wake, 3, 0x10020, .bare⟩,
    ⟨.wait, 1, 0x10010, .bare⟩, ⟨.wait, 2, 0x10020, .bare⟩, ⟨.wait, 3, 0x10000, .bare⟩,
    ⟨.wait, 2, 0x10000, .bare⟩]

theorem findPotentialDeadlockScenarios_exact_run :
    (findPotentialDeadlockScenarios (run shortCyclesRun).waitsFor).Nodup ∧
      ∀ v, v ∈ findPotentialDeadlockScenarios (run shortCyclesRun).waitsFor ↔
        ShortCycle (run shortCyclesRun).waitsFor v := by
  apply findPotentialDeadlockScenarios_exact
  have hentries : ∀ entry ∈ (run shortCyclesRun).waitsFor.entries, entry.1 ∉ entry.2 := by decide
  intro t ht
  obtain ⟨entry, hentry, rfl, hmem⟩ := WaitsFor.edge_iff.mp ht
  exact hentries entry hentry hmem

end GlobalState

end DeadlockInterceptor
