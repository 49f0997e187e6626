import DeadlockInterceptor.Lemmas.FalseReports

/-!
This module contains when the resolvers break the deadlock they were called for. They take the first live
thread of the reported vector, and the vector starts with the way to the cycle.
-/

open Relation DirectedGraph

namespace DeadlockInterceptor

namespace World

def IsThread (w : World) (t : ThreadName) : Prop := t ∈ w.waitsFor ∨ ∃ u, w.Waits u t

/--
The identifier of every thread of the graph has a tid, and is the identifier the monitor has for that tid.
-/
def NamesParse (w : World) : Prop :=
  ∀ t, w.IsThread t → ∃ tid, extractTidFromIdentifier t = .ok tid ∧
    ∀ proc, (w.toGlobalState.threadIdentifier proc tid).1 = t

def AllAlive (w : World) (threadExists : Pid → Bool) : Prop :=
  ∀ t, w.IsThread t → ∀ tid, extractTidFromIdentifier t = .ok tid → threadExists tid = true

/--
The victim for the vector `v` is on the directed cycle in it, and after the resolution this is no cycle of
the graph anymore.
-/
def Breaks (threadExists : Pid → Bool) (v : List ThreadName) (w' : World) : Prop :=
  ∃ victim tid, findVictim threadExists v = .ok (some (victim, tid)) ∧ victim ∈ cyclePart v ∧
    ¬IsCycle w'.Waits (cyclePart v)

def ResolutionsBreak (w : World) (root : ThreadName) : Prop :=
  ∀ d, dfsDeadlock w.waitsFor root .fresh = (true, d) →
    ∀ deadlock : DeadlockInfo, deadlock.cycle = d.cycle.reverse →
      (∀ env w', w.AllAlive env.threadExists →
        w.resolveDeadlockStrategy1 env deadlock = (.ok true, w') →
          Breaks env.threadExists deadlock.cycle w') ∧
      (∀ env w', w.AllAlive env.threadExists →
        w.emergencyDeadlockBreak env deadlock = (.ok true, w') →
          Breaks env.threadExists deadlock.cycle w')

def reorder (w : World) (waitsFor : WaitsFor) : World := { w with waitsFor := waitsFor }

variable {w : World} {root : ThreadName}

theorem isThread_reorder {waitsFor : WaitsFor} (h : w.waitsFor.Same waitsFor) (t : ThreadName) :
    (w.reorder waitsFor).IsThread t ↔ w.IsThread t := by
  have hwaits : (w.reorder waitsFor).Waits = w.Waits := h.edge_eq
  have hmem : t ∈ (w.reorder waitsFor).waitsFor ↔ t ∈ w.waitsFor := h.mem t
  rw [IsThread, IsThread, hwaits, hmem]

theorem not_isCycle_of_erase (waitsFor : WaitsFor) {cyc : List ThreadName} {t : ThreadName} {w' : World}
    (ht : t ∈ cyc) (hw' : w'.waitsFor = waitsFor.erase t) : ¬IsCycle w'.Waits cyc := by
  intro hcyc
  obtain ⟨u, htu, -⟩ := hcyc.exists_succ ht
  have hmem := WaitsFor.Edge.mem (w := w'.waitsFor) htu
  rw [hw', AList.mem_erase] at hmem
  exact hmem.1 rfl

theorem findVictim_of_allAlive (hnames : w.NamesParse) (threadExists : Pid → Bool)
    (halive : w.AllAlive threadExists) {v : List ThreadName} (hroot : w.IsThread root)
    (hv : v.head? = some root) :
    ∃ tid, findVictim threadExists v = .ok (some (root, tid)) ∧
      ∀ proc, (w.toGlobalState.threadIdentifier proc tid).1 = root := by
  obtain ⟨rest, rfl⟩ := List.head?_eq_some_iff.mp hv
  obtain ⟨tid, htid, hident⟩ := hnames root hroot
  exact ⟨tid, findVictim_cons_of_live htid (halive root hroot tid htid), hident⟩

theorem fresh_report {waitsFor : WaitsFor} {d : DfsState}
    (hd : dfsDeadlock waitsFor root .fresh = (true, d)) :
    IsLasso waitsFor.Edge d.cycle.reverse ∧ d.cycle.reverse.head? = some root := by
  have hcalled := dfsDeadlock.called hd (Finset.notMem_empty root) subset_rfl
    (fun t ht => absurd ht (Finset.notMem_empty t))
  obtain ⟨p, y, hfound⟩ := hcalled.found rfl
  rw [hfound.reverse_cycle rfl]
  have hy : y ∈ root :: p := by
    rcases hfound.hit with hy | hy
    . rw [Finset.mem_singleton.mp hy]
      exact List.mem_cons_self
    . exact List.mem_cons_of_mem root hy
  have hlasso := hfound.isLasso rfl hy
  rw [hfound.reverse_cycle rfl] at hlasso
  exact ⟨hlasso, rfl⟩

theorem resolutionsBreak_of_forall (hnames : w.NamesParse)
    (hroot : ∀ cyc, IsCycle w.Waits cyc → ∀ c ∈ cyc, ReflTransGen w.Waits root c → root ∈ cyc) :
    w.ResolutionsBreak root := by
  intro d hd deadlock hcycle
  obtain ⟨hlasso, hhead⟩ := fresh_report hd
  rw [← hcycle] at hlasso hhead
  have hpart : IsCycle w.Waits (cyclePart deadlock.cycle) := hlasso.isCycle_cyclePart
  -- the cycle in the vector can be reached from the root, so the root is on it
  have hmem : root ∈ cyclePart deadlock.cycle := by
    refine hroot _ hpart _ (List.head_mem hpart.ne_nil) ?_
    apply reach_of_head hlasso.walk hhead
    exact List.dropLast_subset _ (hlasso.cyclePart_subset (List.head_mem hpart.ne_nil))
  have hthread : w.IsThread root := by
    obtain ⟨u, hru, -⟩ := hpart.exists_succ hmem
    exact .inl (WaitsFor.Edge.mem hru)
  constructor
  . intro env w' halive hresult
    obtain ⟨tid, hfind, -⟩ := findVictim_of_allAlive hnames _ halive hthread hhead
    rcases resolveDeadlockStrategy1_cases env deadlock w with
      ⟨e, -, heq⟩ | ⟨memory, heq⟩ | ⟨victim, victimTid, run, status, hvictim, -, -, -, heq⟩
    . rw [heq, Prod.mk.injEq] at hresult
      exact absurd hresult.1 (by simp)
    . rw [heq, Prod.mk.injEq] at hresult
      exact absurd hresult.1 (by simp)
    . rw [hfind] at hvictim
      simp only [Except.ok.injEq, Option.some.injEq, Prod.mk.injEq] at hvictim
      rw [heq, Prod.mk.injEq] at hresult
      refine ⟨root, tid, hfind, hmem, not_isCycle_of_erase w.waitsFor hmem ?_⟩
      rw [← hresult.2, ← hvictim.1]
      rfl
  . intro env w' halive hresult
    obtain ⟨tid, hfind, hident⟩ := findVictim_of_allAlive hnames _ halive hthread hhead
    rcases emergencyDeadlockBreak_cases env deadlock w with
      ⟨e, -, heq⟩ | ⟨-, heq⟩ | ⟨victim, victimTid, w'', hvictim, heq, hw'', -⟩
    . rw [heq, Prod.mk.injEq] at hresult
      exact absurd hresult.1 (by simp)
    . rw [heq, Prod.mk.injEq] at hresult
      exact absurd hresult.1 (by simp)
    . rw [hfind] at hvictim
      simp only [Except.ok.injEq, Option.some.injEq, Prod.mk.injEq] at hvictim
      rw [heq, Prod.mk.injEq] at hresult
      refine ⟨root, tid, hfind, hmem, not_isCycle_of_erase w.waitsFor hmem ?_⟩
      rw [← hresult.2, hw'', ← hvictim.2, hident]

/--
If a cycle can be reached that does not pass through the root, then in some iteration order it is the one
that is reported, and the root is killed for it.
-/
theorem mem_of_resolutionsBreak (hnames : w.NamesParse)
    (h : ∀ waitsFor, w.waitsFor.Same waitsFor → (w.reorder waitsFor).ResolutionsBreak root) :
    ∀ cyc, IsCycle w.Waits cyc → ∀ c ∈ cyc, ReflTransGen w.Waits root c → root ∈ cyc := by
  intro cyc hcyc c hc hreach
  by_contra hroot
  obtain ⟨p, x, hwalk, hnodup, hhead, hx, hp⟩ := exists_walk_to_first (C := (· ∈ cyc)) hreach hc
  obtain ⟨e, y, hlasso, hy, he⟩ := exists_isLasso_of_forall_exists (r := w.Waits)
    (Q := (· ∈ cyc)) cyc.toFinset (fun a ha => List.mem_toFinset.mpr ha)
    (fun a ha => hcyc.exists_succ ha) hwalk hnodup hx
  -- the vector is visited first
  obtain ⟨q, hq⟩ : ∃ q, p ++ [x] ++ e = root :: q := by
    apply List.head?_eq_some_iff.mp
    rw [List.head?_append, hhead]
    rfl
  have hyp : y ∉ p := fun hmem => hp y hmem hy
  have hpart : ∀ z ∈ cyclePart (p ++ [x] ++ e ++ [y]), z ∈ cyc := by
    intro z hz
    rw [List.append_assoc, List.append_assoc, ← List.append_assoc [x], ← List.append_assoc,
      cyclePart_concat, List.dropWhile_append_of_pos] at hz
    . have := (List.dropWhile_sublist _).subset hz
      rcases List.mem_append.mp this with hz | hz
      . rw [List.mem_singleton.mp hz]
        exact hx
      . exact he z hz
    . intro a ha
      have : a ≠ y := fun heq => hyp (heq ▸ ha)
      simpa using this
  rw [hq] at hlasso hpart
  obtain ⟨hsame, hd, -⟩ := dfsDeadlock.of_isLasso hlasso
  have hbreaks := h _ hsame _ hd ⟨root :: q ++ [y], [], 0, false⟩ (by simp)
  -- `emergency_deadlock_break` kills the root
  have hthread : w.IsThread root := by
    rcases reflTransGen_iff_eq_or_transGen.mp hreach with rfl | htrans
    . exact absurd hc hroot
    . obtain ⟨u, hru, -⟩ := TransGen.head'_iff.mp htrans
      exact .inl (WaitsFor.Edge.mem hru)
  obtain ⟨tid, hfind, -⟩ := findVictim_of_allAlive hnames (fun _ => true)
    (fun _ _ _ _ => rfl) (v := root :: q ++ [y]) hthread rfl
  obtain ⟨victim, tid', hvictim, hmem, -⟩ := hbreaks.2 ⟨fun _ => true, ⟨fun _ => none, fun _ _ => none⟩⟩ _
    (fun _ _ _ _ => rfl) (by rw [emergencyDeadlockBreak, hfind])
  rw [hfind] at hvictim
  simp only [Except.ok.injEq, Option.some.injEq, Prod.mk.injEq] at hvictim
  rw [← hvictim.1] at hmem
  exact hroot (hpart root hmem)

/--
With all threads alive the resolutions break what is reported from `root` on, in every iteration order,
exactly if `root` is on every directed cycle that can be reached from it.
-/
theorem resolutionsBreak_iff (w : World) (root : ThreadName) (hnames : w.NamesParse) :
    (∀ waitsFor, w.waitsFor.Same waitsFor → (w.reorder waitsFor).ResolutionsBreak root)
      ↔
    ∀ cyc, IsCycle w.Waits cyc → ∀ c ∈ cyc, ReflTransGen w.Waits root c → root ∈ cyc := by
  constructor
  . exact mem_of_resolutionsBreak hnames
  . intro hroot waitsFor hsame
    have hwaits : (w.reorder waitsFor).Waits = w.Waits := hsame.edge_eq
    apply resolutionsBreak_of_forall
    . intro t ht
      exact hnames t ((isThread_reorder hsame t).mp ht)
    . rwa [hwaits]

section stray

def strayWorld : World where
  toGlobalState := { GlobalState.init with
    waitsFor := ScanState.strayGraph
    threadInfoCache := (((∅ : UMap Pid ThreadInfo).insert 3 ⟨3, ['c'], 0⟩).insert 2
      ⟨2, ['b'], 0⟩).insert 1 ⟨1, ['a'], 0⟩ }
  memory _ := 0

theorem strayWorld_isThread {t : ThreadName} (h : strayWorld.IsThread t) :
    t = ScanState.threadA ∨ t = ScanState.threadB ∨ t = ScanState.threadC := by
  have hkeys : ∀ u, u ∈ strayWorld.waitsFor →
      u = ScanState.threadA ∨ u = ScanState.threadB ∨ u = ScanState.threadC := by
    intro u hu
    have hmem : u ∈ [ScanState.threadA, ScanState.threadB, ScanState.threadC] := hu
    simpa using hmem
  rcases h with h | ⟨u, hut⟩
  . exact hkeys t h
  . have hmem : t ∈ [ScanState.threadA, ScanState.threadB] := by
      rcases hkeys u (WaitsFor.Edge.mem (w := strayWorld.waitsFor) hut) with rfl | rfl | rfl
      . exact List.mem_cons_of_mem _ hut
      . exact List.mem_append_left [ScanState.threadB] hut
      . exact List.mem_append_left [ScanState.threadB] hut
    simp only [List.mem_cons, List.not_mem_nil, or_false] at hmem
    tauto

theorem strayWorld_namesParse : strayWorld.NamesParse := by
  intro t ht
  rcases strayWorld_isThread ht with rfl | rfl | rfl
  . exact ⟨1, by decide, fun _ => rfl⟩
  . exact ⟨2, by decide, fun _ => rfl⟩
  . exact ⟨3, by decide, fun _ => rfl⟩

/-- The third thread is killed for the deadlock of the other two. -/
theorem exists_strayVictim : ¬∀ (w : World) (root : ThreadName), w.NamesParse → w.ResolutionsBreak root := by
  intro h
  obtain ⟨-, hemergency⟩ := h strayWorld ScanState.threadC strayWorld_namesParse _ rfl
    ⟨[ScanState.threadC, ScanState.threadA, ScanState.threadB, ScanState.threadA], [], 0, false⟩ rfl
  obtain ⟨victim, tid, hvictim, hmem, -⟩ := hemergency
    ⟨fun _ => true, ⟨fun _ => none, fun _ _ => none⟩⟩ _ (fun _ _ _ _ => rfl) rfl
  have hfind : findVictim (fun _ => true)
      [ScanState.threadC, ScanState.threadA, ScanState.threadB, ScanState.threadA]
        = .ok (some (ScanState.threadC, 3)) := rfl
  rw [hfind, Except.ok.injEq, Option.some.injEq, Prod.mk.injEq] at hvictim
  rw [← hvictim.1] at hmem
  exact absurd hmem (by decide)

theorem resolutionsBreak_iff_stray :
    (∀ waitsFor, strayWorld.waitsFor.Same waitsFor →
      (strayWorld.reorder waitsFor).ResolutionsBreak ScanState.threadA)
      ↔
    ∀ cyc, IsCycle strayWorld.Waits cyc → ∀ c ∈ cyc,
      ReflTransGen strayWorld.Waits ScanState.threadA c → ScanState.threadA ∈ cyc :=
  resolutionsBreak_iff strayWorld ScanState.threadA strayWorld_namesParse

end stray

end World

end DeadlockInterceptor
