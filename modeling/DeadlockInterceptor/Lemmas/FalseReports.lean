import DeadlockInterceptor.Lemmas.CombinedDetector

/-!
This module contains when all reports of one detection pass are real. A successful search leaves its path on
the stack that the later searches share, while the vector of the path is cleared.
-/

open Relation DirectedGraph

namespace DeadlockInterceptor

namespace ScanState

def Unchanged (env : ThreadName → ResolveEnv) (keys : List ThreadName) (st : ScanState) : Prop :=
  ∀ pre post st', keys = pre ++ post → loop env pre st = .returned st' →
    st'.world.waitsFor = st.world.waitsFor

/--
Every vector that a pass over the graph reports is a walk from the root of its search to a thread it has
been to before, as long as the pass leaves the graph alone.
-/
def ReportsReal (waitsFor : WaitsFor) : Prop :=
  ∀ (w : World) (env : ThreadName → ResolveEnv), w.waitsFor = waitsFor →
    Unchanged env w.waitsFor.keys ⟨w, ∅, ∅⟩ →
      ∀ pre r post st d, w.waitsFor.keys = pre ++ r :: post → IsCall env ⟨w, ∅, ∅⟩ pre r st true d →
        IsLasso waitsFor.Edge d.cycle.reverse ∧ d.cycle.reverse.head? = some r

/-- No thread from outside of a directed cycle waits for a thread on it. -/
def Isolated (r : ThreadName → ThreadName → Prop) : Prop :=
  ∀ cyc, IsCycle r cyc → ∀ x y, r x y → y ∈ cyc → x ∈ cyc

structure CyclesOnStack (waitsFor : WaitsFor) (st : ScanState) : Prop where
  subset : st.stack ⊆ st.visited
  finished : dfsDeadlock.Finished waitsFor st.dfsState
  cycles : ∀ y ∈ st.stack, ∃ cyc, IsCycle waitsFor.Edge cyc ∧ y ∈ cyc ∧ ∀ x ∈ cyc, x ∈ st.stack

variable {waitsFor : WaitsFor} {st : ScanState} {r : ThreadName}

theorem CyclesOnStack.called (h : CyclesOnStack waitsFor st) (hr : r ∉ st.visited) {b : Bool}
    {d : DfsState} (hd : dfsDeadlock waitsFor r st.dfsState = (b, d)) :
    dfsDeadlock.Called waitsFor r st.dfsState b d :=
  dfsDeadlock.called hd (fun hmem => hr (h.subset hmem)) h.subset h.finished

theorem CyclesOnStack.hit (h : CyclesOnStack waitsFor st) (hiso : Isolated waitsFor.Edge)
    (hr : r ∉ st.visited) {d : DfsState} {p : List ThreadName} {y : ThreadName}
    (hfound : dfsDeadlock.Found waitsFor r (dfsDeadlock.enter r st.dfsState) d p y) : y ∈ r :: p := by
  rcases hfound.hit with hy | hy
  . rcases Finset.mem_insert.mp hy with rfl | hy
    . exact List.mem_cons_self
    . exfalso
      obtain ⟨cyc, hcyc, hycyc, hstack⟩ := h.cycles y hy
      -- the last thread of the path waits for `y`, so it is on the stack as well
      have hlast := (List.isChain_append.mp hfound.walk).2.2 _
        (List.getLast?_eq_some_getLast (List.cons_ne_nil r p)) y rfl
      have hmem := hstack _ (hiso cyc hcyc _ _ hlast hycyc)
      rcases List.mem_cons.mp (List.getLast_mem (List.cons_ne_nil r p)) with heq | hin
      . rw [heq] at hmem
        exact hr (h.subset hmem)
      . exact hfound.unvisited _ hin (Finset.mem_insert_of_mem (h.subset hmem))
  . exact List.mem_cons_of_mem r hy

theorem CyclesOnStack.afterDfs (h : CyclesOnStack waitsFor st) (hiso : Isolated waitsFor.Edge)
    (hr : r ∉ st.visited) {b : Bool} {d : DfsState}
    (hd : dfsDeadlock waitsFor r st.dfsState = (b, d)) : CyclesOnStack waitsFor (st.afterDfs d) := by
  have hcalled := h.called hr hd
  refine ⟨hcalled.stack_subset, hcalled.finished, ?_⟩
  cases b with
  | false =>
    obtain ⟨hstack, -⟩ := hcalled.notFound rfl
    intro y hy
    rw [ScanState.afterDfs, hstack] at hy ⊢
    exact h.cycles y hy
  | true =>
    obtain ⟨p, y, hfound⟩ := hcalled.found rfl
    have hlasso := hfound.isLasso rfl (h.hit hiso hr hfound)
    have hstack : d.stack = insert r st.stack ∪ p.toFinset := hfound.stack
    have hpart : cyclePart d.cycle.reverse = r :: p := by
      rw [hlasso.cyclePart_eq_of_closed (hiso _ hlasso.isCycle_cyclePart), hfound.reverse_cycle rfl]
      exact List.dropLast_concat
    intro z hz
    rw [ScanState.afterDfs, hstack] at hz ⊢
    simp only [Finset.mem_union, Finset.mem_insert, List.mem_toFinset] at hz ⊢
    by_cases hzp : z = r ∨ z ∈ p
    . refine ⟨cyclePart d.cycle.reverse, hlasso.isCycle_cyclePart, ?_, ?_⟩
      . rw [hpart, List.mem_cons]
        exact hzp
      . intro x hx
        rw [hpart, List.mem_cons] at hx
        tauto
    . obtain ⟨cyc, hcyc, hzcyc, hin⟩ := h.cycles z (by tauto)
      exact ⟨cyc, hcyc, hzcyc, fun x hx => .inl (.inr (hin x hx))⟩

theorem cyclesOnStack_of_loop (hiso : Isolated waitsFor.Edge) {w : World} (hw : w.waitsFor = waitsFor)
    {env : ThreadName → ResolveEnv} {keys : List ThreadName}
    (hunchanged : Unchanged env keys ⟨w, ∅, ∅⟩) {pre post : List ThreadName}
    (hkeys : keys = pre ++ post) (hloop : loop env pre ⟨w, ∅, ∅⟩ = .returned st) :
    CyclesOnStack waitsFor st := by
  induction pre using List.reverseRecOn generalizing post st with
  | nil =>
    simp only [loop, Outcome.returned.injEq] at hloop
    subst hloop
    refine ⟨subset_rfl, ?_, ?_⟩
    . exact fun t ht => absurd ht (Finset.notMem_empty t)
    . exact fun y hy => absurd hy (Finset.notMem_empty y)
  | append_singleton pre r ih =>
    obtain ⟨st₁, hpre, hturn⟩ := loop_concat_eq_returned.mp hloop
    rw [List.append_assoc] at hkeys
    have h₁ := ih hkeys hpre
    have hgraph : st₁.world.waitsFor = waitsFor := (hunchanged pre _ st₁ hkeys hpre).trans hw
    rcases turn_eq_returned hturn with ⟨-, rfl⟩ | ⟨-, hvis, b, d, hd, hvisited, hstack, -⟩
    . exact h₁
    . rw [hgraph] at hd
      have hafter := h₁.afterDfs hiso hvis hd
      refine ⟨?_, ?_, ?_⟩
      . rw [hvisited, hstack]
        exact hafter.subset
      . have := hafter.finished
        rw [dfsState, hvisited, hstack]
        exact this
      . rw [hstack]
        exact hafter.cycles

theorem reportsReal_of_isolated (hiso : Isolated waitsFor.Edge) : ReportsReal waitsFor := by
  intro w env hw hunchanged pre r post st d hkeys hcall
  have hstack := cyclesOnStack_of_loop hiso hw hunchanged hkeys hcall.before
  have hgraph : st.world.waitsFor = waitsFor := (hunchanged pre _ st hkeys hcall.before).trans hw
  have hd := hcall.result
  rw [hgraph] at hd
  obtain ⟨p, y, hfound⟩ := (hstack.called hcall.unvisited hd).found rfl
  refine ⟨hfound.isLasso rfl (hstack.hit hiso hcall.unvisited hfound), ?_⟩
  rw [hfound.reverse_cycle rfl]
  rfl

section necessity

def recordedWorld (waitsFor : WaitsFor) (v : List ThreadName) : World where
  toGlobalState := { GlobalState.init with
    waitsFor := waitsFor
    detectedDeadlocks := [⟨v, [], 0, false⟩] }
  memory _ := 0

def deadEnv : ThreadName → ResolveEnv := fun _ =>
  ⟨⟨fun _ => false, none⟩, ⟨fun _ => false, ⟨fun _ => none, fun _ _ => none⟩⟩⟩

theorem unchanged_deadEnv (keys : List ThreadName) (st : ScanState) : Unchanged deadEnv keys st :=
  fun _ _ _ _ h => waitsFor_of_loop_of_dead (fun _ _ => rfl) (fun _ _ => rfl) h

theorem loop_of_first {y z : ThreadName} {e : List ThreadName}
    (hlasso : IsLasso waitsFor.Edge (y :: e ++ [z]))
    (hfirst : (y :: e ++ [z]).IsChain waitsFor.First) :
    loop deadEnv (y :: e) ⟨recordedWorld waitsFor (y :: e ++ [z]), ∅, ∅⟩
      =
    .returned ⟨recordedWorld waitsFor (y :: e ++ [z]), (y :: e).toFinset, (y :: e).toFinset⟩ := by
  have hwalk := hlasso.walk
  have hy : y ∈ waitsFor := by
    cases e with
    | nil => exact WaitsFor.Edge.mem (List.isChain_cons_cons.mp hwalk).1
    | cons a e => exact WaitsFor.Edge.mem (List.isChain_cons_cons.mp hwalk).1
  have hd := dfsDeadlock.fresh_eq_of_first hlasso hfirst
  have hturn := turn_of_recorded (deadEnv y)
    ⟨recordedWorld waitsFor (y :: e ++ [z]), ∅, ∅⟩ hy (Finset.notMem_empty y) hd
    ⟨_, List.mem_singleton.mpr rfl, by simp⟩
  rw [loop, hturn]
  apply loop_of_visited
  intro t ht
  rw [afterDfs, List.mem_toFinset]
  exact List.mem_cons_of_mem y ht

/-- A pass that starts on the cycle reports an entering thread together with the thread it waits for. -/
theorem isolated_of_reportsReal (h : ∀ waitsFor', waitsFor.Same waitsFor' → ReportsReal waitsFor') :
    Isolated waitsFor.Edge := by
  intro cyc hcyc x y hxy hy
  by_contra hx
  obtain ⟨e, z, hlasso, -, he⟩ := exists_isLasso_of_forall_exists (r := waitsFor.Edge)
    (Q := (· ∈ cyc)) cyc.toFinset (fun a ha => List.mem_toFinset.mpr ha)
    (fun a ha => hcyc.exists_succ ha) (p := []) (x := y) (List.isChain_singleton y)
    (List.nodup_singleton y) hy
  rw [List.nil_append, List.singleton_append] at hlasso
  have hxe : x ∉ y :: e := by
    intro hmem
    rcases List.mem_cons.mp hmem with rfl | hmem
    . exact hx hy
    . exact hx (he x hmem)
  -- visit the cycle first, and `y` first among the threads `x` waits for
  let g₁ := waitsFor.steer ([x] ++ [y])
  let g₂ := g₁.steer (y :: e ++ [z])
  have hxy' : ([x] ++ [y]).IsChain waitsFor.Edge := List.isChain_pair.mpr hxy
  have hsame₁ : waitsFor.Same g₁ := WaitsFor.steer_same hxy'
  have hlasso₁ : IsLasso g₁.Edge (y :: e ++ [z]) := by rwa [hsame₁.edge_eq]
  have hnodup : (y :: e).Nodup := (isLasso_concat_iff.mp hlasso).2.1
  have hsame₂ : g₁.Same g₂ := WaitsFor.steer_same hlasso₁.walk
  have hlasso₂ : IsLasso g₂.Edge (y :: e ++ [z]) := by rwa [hsame₂.edge_eq]
  have hfirst : (y :: e ++ [z]).IsChain g₂.First := WaitsFor.steer_first hlasso₁.walk hnodup
  have hfirstx : g₂.First x y := by
    have hx₁ : g₁.First x y :=
      List.isChain_pair.mp (WaitsFor.steer_first hxy' (List.nodup_singleton x))
    rw [WaitsFor.First, WaitsFor.steer_getD_of_notMem hxe]
    exact hx₁
  obtain ⟨rest, hkeys⟩ : ∃ rest, g₂.keys = (y :: e) ++ x :: rest := by
    have h₁ : g₁.keys = [x] ++ waitsFor.keys.filter (· ∉ [x]) :=
      WaitsFor.keys_steer (List.nodup_singleton x)
    have h₂ : g₂.keys = (y :: e) ++ g₁.keys.filter (· ∉ y :: e) := WaitsFor.keys_steer hnodup
    rw [h₁, List.singleton_append, List.filter_cons_of_pos (by simpa using hxe)] at h₂
    exact ⟨_, h₂⟩
  have hd : dfsDeadlock g₂ x ⟨(y :: e).toFinset, (y :: e).toFinset, []⟩
      = (true, ⟨(y :: e).toFinset ∪ [x].toFinset, (y :: e).toFinset ∪ [x].toFinset, [y, x]⟩) :=
    dfsDeadlock.eq_of_first (t := x) (y := y) (p := [])
      (s := ⟨(y :: e).toFinset, (y :: e).toFinset, []⟩) (List.isChain_pair.mpr hfirstx)
      (List.nodup_singleton x) (by simp) subset_rfl (.inl (by simp [dfsDeadlock.enter]))
  have hcall : IsCall deadEnv ⟨recordedWorld g₂ (y :: e ++ [z]), ∅, ∅⟩ (y :: e) x
      ⟨recordedWorld g₂ (y :: e ++ [z]), (y :: e).toFinset, (y :: e).toFinset⟩ true _ :=
    ⟨loop_of_first hlasso₂ hfirst, (hsame₁.trans hsame₂).mem x |>.mpr hxy.mem,
      fun hmem => hxe (List.mem_toFinset.mp hmem), hd⟩
  obtain ⟨hreal, -⟩ := h g₂ (hsame₁.trans hsame₂) (recordedWorld g₂ (y :: e ++ [z])) deadEnv rfl
    (unchanged_deadEnv _ _) (y :: e) x rest _ _ hkeys hcall
  have hyx : y ∈ [x] := (isLasso_concat_iff (p := [x]) (y := y).mp hreal).2.2
  rw [List.mem_singleton] at hyx
  exact hx (hyx ▸ hy)

end necessity

/--
All reports of a pass are real, in every iteration order, exactly if no thread from outside of a directed
cycle waits for a thread on it.
-/
theorem reportsReal_iff_isolated (waitsFor : WaitsFor) :
    (∀ waitsFor', waitsFor.Same waitsFor' → ReportsReal waitsFor') ↔ Isolated waitsFor.Edge := by
  constructor
  . exact isolated_of_reportsReal
  . intro hiso waitsFor' hsame
    apply reportsReal_of_isolated
    rwa [hsame.edge_eq]

section stray

def threadA : ThreadName := ['a', '[', '1', ']']

def threadB : ThreadName := ['b', '[', '2', ']']

def threadC : ThreadName := ['c', '[', '3', ']']

def strayGraph : WaitsFor :=
  (((∅ : WaitsFor).insert threadC (USet.insert ∅ threadA)).insert threadB
    (USet.insert ∅ threadA)).insert threadA (USet.insert ∅ threadB)

/-- The search from the third thread finds the first one on the stack, and reports the two as a cycle. -/
theorem exists_falseReport : ¬∀ waitsFor, ReportsReal waitsFor := by
  intro h
  have hcall : IsCall deadEnv ⟨recordedWorld strayGraph [threadA, threadB, threadA], ∅, ∅⟩
      [threadA, threadB] threadC
      ⟨recordedWorld strayGraph [threadA, threadB, threadA], {threadB, threadA}, {threadB, threadA}⟩
      true ⟨{threadC, threadB, threadA}, {threadC, threadB, threadA}, [threadA, threadC]⟩ :=
    ⟨rfl, by decide, by decide, rfl⟩
  have hreal := (h strayGraph (recordedWorld strayGraph [threadA, threadB, threadA]) deadEnv rfl
    (unchanged_deadEnv _ _) [threadA, threadB] threadC [] _ _ rfl hcall).1
  exact absurd hreal.last_mem (by decide)

end stray

end ScanState

end DeadlockInterceptor
