import DeadlockInterceptor.Graph.Rounds
import DeadlockInterceptor.Lemmas.MonitoringFlag
import DeadlockInterceptor.Lemmas.Recurrence

/-!
This module contains how often a deadlock is counted that no pass can resolve. What a search finds is compared
with the recorded vectors as a whole, and it depends on the iteration order.
-/

open Relation DirectedGraph

namespace DeadlockInterceptor

/-- The vector ends with a round of the directed cycle `cyc`, which may start at any of its threads. -/
def Detects (v cyc : List ThreadName) : Prop := (cyclePart v).IsRotated cyc

def Unresolvable (env : ThreadName → ResolveEnv) (waitsFor : WaitsFor) : Prop :=
  ∀ r t, ReachesCycle waitsFor.Edge t →
    Dead (env r).strategy1.threadExists t ∧ Dead (env r).emergency.threadExists t

structure Books (env : ThreadName → ResolveEnv) (w w' : World) (new : List DeadlockInfo) : Prop where
  pass : w.scanThreads env = .returned w'
  waitsFor : w'.waitsFor = w.waitsFor
  detectedDeadlocks : w'.detectedDeadlocks = w.detectedDeadlocks ++ new
  deadlockCounter : w'.deadlockCounter = w.deadlockCounter + new.length

/--
Two passes after each other, with a rehash of the graph in between: the second one books no directed cycle
that the first one has booked.
-/
def CountedOnce (env₁ env₂ : ThreadName → ResolveEnv) (w : World) (waitsFor₂ : WaitsFor) : Prop :=
  ∃ w₁ recorded w₂ new, Books env₁ w w₁ recorded ∧ Books env₂ { w₁ with waitsFor := waitsFor₂ } w₂ new ∧
    ∀ cyc, IsCycle w.waitsFor.Edge cyc → (∃ e ∈ recorded, Detects e.cycle cyc) →
      ∀ e ∈ new, ¬Detects e.cycle cyc

theorem Unresolvable.same {env : ThreadName → ResolveEnv} {waitsFor waitsFor' : WaitsFor}
    (h : Unresolvable env waitsFor) (hsame : waitsFor.Same waitsFor') : Unresolvable env waitsFor' := by
  rwa [Unresolvable, hsame.edge_eq]

theorem Books.unique {env : ThreadName → ResolveEnv} {w w₁ w₂ : World} {new₁ new₂ : List DeadlockInfo}
    (h₁ : Books env w w₁ new₁) (h₂ : Books env w w₂ new₂) : w₁ = w₂ ∧ new₁ = new₂ := by
  have heq : w₁ = w₂ := Outcome.returned.inj (h₁.pass.symm.trans h₂.pass)
  have hnew : w.detectedDeadlocks ++ new₁ = w.detectedDeadlocks ++ new₂ := by
    rw [← h₁.detectedDeadlocks, ← h₂.detectedDeadlocks, heq]
  exact ⟨heq, List.append_cancel_left hnew⟩

namespace ScanState

variable {env : ThreadName → ResolveEnv} {w : World} {new : List DeadlockInfo} {st : ScanState} {r : ThreadName}

structure Standing (w : World) (new : List DeadlockInfo) (st : ScanState) : Prop extends Within w st where
  waitsFor : st.world.waitsFor = w.waitsFor
  detectedDeadlocks : st.world.detectedDeadlocks = w.detectedDeadlocks ++ new
  deadlockCounter : st.world.deadlockCounter = w.deadlockCounter + new.length
  walk : ∀ e ∈ new, e.cycle.IsChain w.waitsFor.Edge
  nodup : ∀ e ∈ new, e.cycle.dropLast.Nodup
  fresh : ∀ e ∈ new, ∀ existing ∈ w.detectedDeadlocks, existing.cycle ≠ e.cycle

theorem standing_init (w : World) : Standing w [] ⟨w, ∅, ∅⟩ where
  toWithin := within_init w
  waitsFor := rfl
  detectedDeadlocks := (List.append_nil _).symm
  deadlockCounter := rfl
  walk _ he := absurd he List.not_mem_nil
  nodup _ he := absurd he List.not_mem_nil
  fresh _ he := absurd he List.not_mem_nil

theorem Standing.afterDfs (h : Standing w new st) {env : ResolveEnv} {d : DfsState}
    (hturn : st.turn env r = .returned (st.afterDfs d)) : Standing w new (st.afterDfs d) where
  toWithin := h.toWithin.turn hturn
  waitsFor := h.waitsFor
  detectedDeadlocks := h.detectedDeadlocks
  deadlockCounter := h.deadlockCounter
  walk := h.walk
  nodup := h.nodup
  fresh := h.fresh

theorem Standing.turn_new (hdead : Unresolvable env w.waitsFor) (h : Standing w new st)
    (hmem : r ∈ st.world.waitsFor) (hvis : r ∉ st.visited) {d : DfsState}
    (hd : dfsDeadlock st.world.waitsFor r st.dfsState = (true, d))
    (hnew : ∀ existing ∈ st.world.detectedDeadlocks, existing.cycle ≠ d.cycle.reverse) :
    ∃ st' e, st.turn (env r) r = .returned st' ∧ e.cycle = d.cycle.reverse ∧ Standing w (new ++ [e]) st' ∧
      st'.visited = d.visited := by
  obtain ⟨hreported, -⟩ := h.reported hvis hd
  obtain ⟨p, y, hfound⟩ := (h.called hvis hd).found rfl
  have hvector := hfound.reverse_cycle rfl
  have hnodup : (r :: p).Nodup := by
    rw [List.nodup_cons]
    exact ⟨fun hr => hfound.unvisited r hr (Finset.mem_insert_self r st.visited), hfound.nodup⟩
  obtain ⟨w', e, hturn, hcycle, hwaits, hrecorded, hcounter⟩ :=
    turn_of_none (env r) st hmem hvis hd hreported.two_le_length hnew
      (findVictim_of_dead fun x hx => (hdead r x (hreported.reaches x hx)).1)
      (findVictim_of_dead fun x hx => (hdead r x (hreported.reaches x hx)).2)
  refine ⟨_, e, hturn, hcycle, ⟨h.toWithin.turn hturn, hwaits.trans h.waitsFor, ?_, ?_, ?_, ?_, ?_⟩, rfl⟩
  . show w'.detectedDeadlocks = _
    rw [hrecorded, h.detectedDeadlocks, List.append_assoc]
  . show w'.deadlockCounter = _
    rw [hcounter, h.deadlockCounter, List.length_append, List.length_singleton, Nat.add_assoc]
  . rw [List.forall_mem_append, List.forall_mem_singleton, hcycle]
    exact ⟨h.walk, hreported.walk⟩
  . rw [List.forall_mem_append, List.forall_mem_singleton, hcycle, hvector, List.dropLast_concat]
    exact ⟨h.nodup, hnodup⟩
  . rw [List.forall_mem_append, List.forall_mem_singleton, hcycle]
    refine ⟨h.fresh, fun existing hexisting => hnew existing ?_⟩
    rw [h.detectedDeadlocks]
    exact List.mem_append_left new hexisting

theorem Standing.turn (hdead : Unresolvable env w.waitsFor) (h : Standing w new st) (r : ThreadName) :
    ∃ st' added, st.turn (env r) r = .returned st' ∧ Standing w (new ++ added) st' ∧
      st.visited ⊆ st'.visited ∧ ∀ e ∈ added, ∀ x ∈ e.cycle.head?, x ∉ st.visited := by
  have hbooksNothing : ∀ st', st.turn (env r) r = .returned st' → Standing w new st' →
      st.visited ⊆ st'.visited → ∃ st' added, st.turn (env r) r = .returned st' ∧
        Standing w (new ++ added) st' ∧ st.visited ⊆ st'.visited ∧
        ∀ e ∈ added, ∀ x ∈ e.cycle.head?, x ∉ st.visited := by
    intro st' hturn hst' hsub
    refine ⟨st', [], hturn, ?_, hsub, fun e he => absurd he List.not_mem_nil⟩
    rwa [List.append_nil]
  rcases turn_cases (env r) r st with ⟨-, hturn⟩ | ⟨hmem, hvis, b, d, hd, hcases⟩
  . exact hbooksNothing st hturn h subset_rfl
  . have hsub : st.visited ⊆ d.visited :=
      (Finset.subset_insert r st.visited).trans (h.called hvis hd).visited
    rcases hcases with ⟨-, hturn⟩ | ⟨rfl, -⟩
    . exact hbooksNothing _ hturn (h.afterDfs hturn) hsub
    . by_cases hnew : ∀ existing ∈ st.world.detectedDeadlocks, existing.cycle ≠ d.cycle.reverse
      . obtain ⟨st', e, hturn, hcycle, hst', hvisited⟩ := h.turn_new hdead hmem hvis hd hnew
        refine ⟨st', [e], hturn, hst', hvisited ▸ hsub, ?_⟩
        rw [List.forall_mem_singleton, hcycle, (h.reported hvis hd).1.head]
        intro x hx
        rwa [← Option.mem_some_iff.mp hx]
      . push Not at hnew
        have hturn := turn_of_recorded (env r) st hmem hvis hd hnew
        exact hbooksNothing _ hturn (h.afterDfs hturn) hsub

theorem Standing.loop (hdead : Unresolvable env w.waitsFor) (h : Standing w new st) (keys : List ThreadName) :
    ∃ st' added, ScanState.loop env keys st = .returned st' ∧ Standing w (new ++ added) st' ∧
      ∀ e ∈ added, ∀ x ∈ e.cycle.head?, x ∉ st.visited := by
  induction keys generalizing st new with
  | nil => exact ⟨st, [], rfl, by rwa [List.append_nil], fun e he => absurd he List.not_mem_nil⟩
  | cons r keys ih =>
    obtain ⟨st₁, added₁, hturn, h₁, hsub, hadded₁⟩ := h.turn hdead r
    obtain ⟨st', added₂, hloop, h', hadded₂⟩ := ih h₁
    refine ⟨st', added₁ ++ added₂, ?_, ?_, ?_⟩
    . rw [ScanState.loop, hturn]
      exact hloop
    . rwa [← List.append_assoc]
    . rw [List.forall_mem_append]
      exact ⟨hadded₁, fun e he x hx hvisited => hadded₂ e he x hx (hsub hvisited)⟩

theorem Standing.books {keys : List ThreadName} (hkeys : w.waitsFor.keys = keys)
    (hloop : ScanState.loop env keys ⟨w, ∅, ∅⟩ = .returned st) (h : Standing w new st) :
    Books env w st.world new where
  pass := by rw [World.scanThreads, hkeys, hloop]
  waitsFor := h.waitsFor
  detectedDeadlocks := h.detectedDeadlocks
  deadlockCounter := h.deadlockCounter

end ScanState

section passes

open ScanState

variable {env : ThreadName → ResolveEnv} {w : World}

theorem exists_books (hdead : Unresolvable env w.waitsFor) :
    ∃ w' new, Books env w w' new ∧
      (∀ e ∈ new, ∀ cyc, Detects e.cycle cyc → cyc ≠ [] → IsLasso w.waitsFor.Edge e.cycle) ∧
      ∀ e ∈ new, ∀ existing ∈ w.detectedDeadlocks, existing.cycle ≠ e.cycle := by
  obtain ⟨st, new, hloop, hst, -⟩ := (standing_init w).loop hdead w.waitsFor.keys
  rw [List.nil_append] at hst
  refine ⟨st.world, new, hst.books rfl hloop, ?_, hst.fresh⟩
  intro e he cyc hdetects hne
  refine isLasso_of_cyclePart_ne_nil (hst.walk e he) (hst.nodup e he) fun hnil => hne ?_
  rw [Detects, hnil] at hdetects
  exact (List.isRotated_nil_iff'.mp hdetects).symm

/-- A lasso that the iteration order visits first is booked if it has not been recorded. -/
theorem exists_books_of_isLasso {waitsFor : WaitsFor} {t y : ThreadName} {p : List ThreadName}
    (hlasso : IsLasso waitsFor.Edge (t :: p ++ [y])) (hw : w.waitsFor = waitsFor.steer (t :: p ++ [y]))
    (hdead : Unresolvable env w.waitsFor)
    (hnew : ∀ existing ∈ w.detectedDeadlocks, existing.cycle ≠ t :: p ++ [y]) :
    ∃ w' e rest, Books env w w' (e :: rest) ∧ e.cycle = t :: p ++ [y] ∧
      ∀ e' ∈ rest, ∀ x ∈ e'.cycle.head?, x ∉ t :: p := by
  obtain ⟨hsame, hd, hkeys⟩ := dfsDeadlock.of_isLasso hlasso
  rw [← hw] at hsame hd hkeys
  have hmem : t ∈ w.waitsFor := by
    rw [AList.mem_keys, hkeys]
    exact List.mem_cons_self
  have hreverse : (y :: (t :: p).reverse).reverse = t :: p ++ [y] := by simp
  rw [← hreverse] at hnew
  obtain ⟨st₁, e, hturn, hcycle, h₁, hvisited⟩ :=
    (standing_init w).turn_new hdead hmem (Finset.notMem_empty t) hd hnew
  obtain ⟨st, rest, hloop, hst, hrest⟩ := h₁.loop hdead (p ++ waitsFor.keys.filter (· ∉ t :: p))
  refine ⟨st.world, e, rest, hst.books hkeys ?_, hcycle.trans hreverse, ?_⟩
  . rw [loop, hturn]
    exact hloop
  . intro e' he' x hx hmem'
    refine hrest e' he' x hx ?_
    rw [hvisited, List.mem_toFinset]
    exact hmem'

theorem forall_books_iff (hdead : Unresolvable env w.waitsFor) {cyc : List ThreadName} (hcyc : cyc ≠ []) :
    (∀ waitsFor', w.waitsFor.Same waitsFor' →
      ∃ w' new, Books env { w with waitsFor := waitsFor' } w' new ∧ ∀ e ∈ new, ¬Detects e.cycle cyc)
      ↔
    ∀ v, IsLasso w.waitsFor.Edge v → Detects v cyc → ∃ existing ∈ w.detectedDeadlocks, existing.cycle = v := by
  constructor
  . intro h v hlasso hdetects
    by_contra hnone
    push Not at hnone
    obtain ⟨p, y, rfl⟩ := hlasso.exists_concat
    obtain ⟨-, -, hy⟩ := isLasso_concat_iff.mp hlasso
    obtain ⟨t, p, rfl⟩ := List.exists_cons_of_ne_nil (List.ne_nil_of_mem hy)
    have hsame := WaitsFor.steer_same hlasso.walk
    obtain ⟨w', new, hbooks, hnew⟩ := h _ hsame
    obtain ⟨w'', e, rest, hbooks', hcycle, -⟩ := exists_books_of_isLasso
      (w := { w with waitsFor := w.waitsFor.steer (t :: p ++ [y]) }) hlasso rfl (hdead.same hsame) hnone
    obtain ⟨-, rfl⟩ := hbooks.unique hbooks'
    apply hnew e List.mem_cons_self
    rwa [hcycle]
  . intro h waitsFor' hsame
    obtain ⟨w', new, hbooks, hlasso, hfresh⟩ :=
      exists_books (w := { w with waitsFor := waitsFor' }) (hdead.same hsame)
    refine ⟨w', new, hbooks, fun e he hdetects => ?_⟩
    have hin := hlasso e he cyc hdetects hcyc
    rw [show WaitsFor.Edge _ = w.waitsFor.Edge from hsame.edge_eq] at hin
    obtain ⟨existing, hexisting, heq⟩ := h e.cycle hin hdetects
    exact hfresh e he existing hexisting heq

section countedOnce

variable {env₁ env₂ : ThreadName → ResolveEnv}

theorem exists_recorded_of_countedOnce {w₁ : World} {recorded : List DeadlockInfo}
    (hbooks : Books env₁ w w₁ recorded) (hdead : Unresolvable env₂ w.waitsFor)
    (h : ∀ waitsFor₂, w.waitsFor.Same waitsFor₂ → CountedOnce env₁ env₂ w waitsFor₂) {e : DeadlockInfo}
    (he : e ∈ recorded) (hlasso : IsLasso w.waitsFor.Edge e.cycle) {v : List ThreadName}
    (hv : IsLasso w.waitsFor.Edge v) (hrotated : (cyclePart v).IsRotated (cyclePart e.cycle)) :
    ∃ existing ∈ w₁.detectedDeadlocks, existing.cycle = v := by
  have hcyc := hlasso.isCycle_cyclePart
  rw [← hbooks.waitsFor] at hdead hv
  refine (forall_books_iff hdead hcyc.ne_nil).mp ?_ v hv hrotated
  intro waitsFor₂ hsame
  rw [hbooks.waitsFor] at hsame
  obtain ⟨w₁', recorded', w₂, new, hbooks₁, hbooks₂, hnew⟩ := h waitsFor₂ hsame
  obtain ⟨rfl, rfl⟩ := hbooks.unique hbooks₁
  exact ⟨w₂, new, hbooks₂, hnew _ hcyc ⟨e, he, .refl _⟩⟩

theorem countedOnce_of_closed {waitsFor₂ : WaitsFor} (h₁ : Unresolvable env₁ w.waitsFor)
    (h₂ : Unresolvable env₂ w.waitsFor) (hsame : w.waitsFor.Same waitsFor₂)
    (hclosed : ∀ t u, w.waitsFor.Edge t u → TransGen w.waitsFor.Edge u u → t = u) :
    CountedOnce env₁ env₂ w waitsFor₂ := by
  obtain ⟨w₁, recorded, hbooks₁, hlasso₁, -⟩ := exists_books h₁
  obtain ⟨w₂, new, hbooks₂, hlasso₂, hfresh⟩ :=
    exists_books (w := { w₁ with waitsFor := waitsFor₂ }) (h₂.same hsame)
  refine ⟨w₁, recorded, w₂, new, hbooks₁, hbooks₂, ?_⟩
  rintro cyc hcyc ⟨e₁, he₁, hdetects₁⟩ e₂ he₂ hdetects₂
  have hin₁ := hlasso₁ e₁ he₁ cyc hdetects₁ hcyc.ne_nil
  have hin₂ := hlasso₂ e₂ he₂ cyc hdetects₂ hcyc.ne_nil
  rw [show WaitsFor.Edge _ = w.waitsFor.Edge from hsame.edge_eq] at hin₂
  -- both vectors are a thread that waits for itself, twice
  obtain ⟨x, hx, hpart₁⟩ := hin₁.exists_eq_pair hclosed
  obtain ⟨y, hy, hpart₂⟩ := hin₂.exists_eq_pair hclosed
  rw [Detects, hpart₁] at hdetects₁
  rw [Detects, hpart₂] at hdetects₂
  have hxy := List.isRotated_singleton_iff.mp (hdetects₁.trans hdetects₂.symm)
  refine hfresh e₂ he₂ e₁ ?_ ?_
  . show e₁ ∈ w₁.detectedDeadlocks
    rw [hbooks₁.detectedDeadlocks]
    exact List.mem_append_right _ he₁
  . rw [hx, hy, (List.cons.inj hxy).1]

/--
A directed cycle is counted once in all pairs of iteration orders exactly if no other thread waits for a thread
on a cycle, so that the cycles are threads that wait for themselves and nobody else does.
-/
theorem countedOnce_iff {waitsFor : WaitsFor} (h₁ : Unresolvable env₁ waitsFor)
    (h₂ : Unresolvable env₂ waitsFor) :
    (∀ (w : World) (waitsFor₂ : WaitsFor), waitsFor.Same w.waitsFor → waitsFor.Same waitsFor₂ →
      CountedOnce env₁ env₂ w waitsFor₂)
      ↔
    ∀ t u, waitsFor.Edge t u → TransGen waitsFor.Edge u u → t = u := by
  constructor
  . intro h t u htu hu
    by_contra hne
    obtain ⟨p, a, q, b, hlasso₁, hlasso₂, hin, hrotated⟩ := exists_two_isLasso htu hne hu
    -- the first pass visits the one lasso first, and books it
    have hsame : waitsFor.Same (waitsFor.steer (t :: p ++ [a])) := WaitsFor.steer_same hlasso₁.walk
    let w : World := ⟨{ GlobalState.init with waitsFor := waitsFor.steer (t :: p ++ [a]) }, fun _ => 0⟩
    obtain ⟨w₁, e, rest, hbooks, hcycle, hrest⟩ := exists_books_of_isLasso (w := w) hlasso₁ rfl
      (h₁.same hsame) fun existing hexisting => absurd hexisting List.not_mem_nil
    have hrecorded : IsLasso w.waitsFor.Edge e.cycle := by
      rwa [hcycle, show WaitsFor.Edge _ = waitsFor.Edge from hsame.edge_eq]
    rw [← hsame.edge_eq] at hlasso₂
    rw [← hcycle] at hrotated
    obtain ⟨existing, hexisting, heq⟩ := exists_recorded_of_countedOnce hbooks (h₂.same hsame)
      (fun waitsFor₂ hsame₂ => h w waitsFor₂ hsame (hsame.trans hsame₂)) List.mem_cons_self hrecorded hlasso₂
      hrotated.symm
    -- the other one starts with a thread that the search from the first one has visited
    rw [hbooks.detectedDeadlocks] at hexisting
    rcases List.mem_cons.mp hexisting with rfl | hexisting
    . rw [hcycle] at heq
      exact hne (List.cons.inj heq).1
    . refine hrest existing hexisting u ?_ hin
      rw [heq]
      rfl
  . intro hclosed w waitsFor₂ hsame hsame₂
    rw [← hsame.edge_eq] at hclosed
    exact countedOnce_of_closed (h₁.same hsame) (h₂.same hsame) (hsame.symm.trans hsame₂) hclosed

end countedOnce

end passes

section twice

open ScanState

theorem unresolvable_deadEnv {waitsFor : WaitsFor} (h : ∀ t ∈ waitsFor.keys, Parses t) :
    Unresolvable deadEnv waitsFor := by
  intro r t ht
  obtain ⟨u, htu, -⟩ := reachesCycle_iff.mp ht
  obtain ⟨tid, htid⟩ := h t (AList.mem_keys.mp htu.mem)
  exact ⟨⟨tid, htid, rfl⟩, ⟨tid, htid, rfl⟩⟩

def pairGraph : WaitsFor :=
  ((∅ : WaitsFor).insert threadB (USet.insert ∅ threadA)).insert threadA (USet.insert ∅ threadB)

theorem unresolvable_pairGraph : Unresolvable deadEnv pairGraph := by
  apply unresolvable_deadEnv
  show ∀ t ∈ [threadA, threadB], Parses t
  rw [List.forall_mem_cons, List.forall_mem_singleton]
  exact ⟨⟨1, rfl⟩, ⟨2, rfl⟩⟩

theorem not_countedOnce_pairGraph :
    ¬∀ (w : World) (waitsFor₂ : WaitsFor), pairGraph.Same w.waitsFor →
      pairGraph.Same waitsFor₂ → CountedOnce deadEnv deadEnv w waitsFor₂ := by
  intro h
  have hne := (countedOnce_iff unresolvable_pairGraph unresolvable_pairGraph).mp h threadB threadA (by decide)
    (.tail (.single (show pairGraph.Edge threadA threadB by decide)) (by decide))
  exact absurd hne (by decide)

def pairWorld : World := ⟨{ GlobalState.init with waitsFor := pairGraph }, fun _ => 0⟩

/-- The first pass books a, b, a and the second one books b, a, b. -/
theorem exists_countedTwice :
    ¬∀ (env₁ env₂ : ThreadName → ResolveEnv) (w : World) (waitsFor₂ : WaitsFor),
      Unresolvable env₁ w.waitsFor → Unresolvable env₂ w.waitsFor → w.waitsFor.Same waitsFor₂ →
        CountedOnce env₁ env₂ w waitsFor₂ := by
  intro h
  obtain ⟨w₁, recorded, w₂, new, hbooks₁, hbooks₂, hnew⟩ := h deadEnv deadEnv pairWorld
    (pairGraph.steer [threadB, threadA]) unresolvable_pairGraph unresolvable_pairGraph
    (WaitsFor.steer_same (by decide))
  have hpasses : (pairWorld.scanThreads deadEnv).Returns fun w₁ =>
      w₁.detectedDeadlocks.map DeadlockInfo.cycle = [[threadA, threadB, threadA]] ∧
      (World.scanThreads deadEnv { w₁ with waitsFor := pairGraph.steer [threadB, threadA] }).Returns fun w₂ =>
        w₂.detectedDeadlocks.map DeadlockInfo.cycle
          = [[threadA, threadB, threadA], [threadB, threadA, threadB]] := by
    decide +kernel
  rw [hbooks₁.pass, Outcome.Returns, hbooks₂.pass, Outcome.Returns, hbooks₂.detectedDeadlocks] at hpasses
  obtain ⟨hfirst, hsecond⟩ := hpasses
  rw [List.map_append, hfirst] at hsecond
  rw [hbooks₁.detectedDeadlocks] at hfirst
  obtain ⟨e₁, he₁, hcycle₁⟩ := List.mem_map.mp
    (show [threadA, threadB, threadA] ∈ recorded.map DeadlockInfo.cycle from hfirst ▸ List.mem_cons_self)
  obtain ⟨e₂, he₂, hcycle₂⟩ := List.mem_map.mp
    (show [threadB, threadA, threadB] ∈ new.map DeadlockInfo.cycle from
      (List.append_cancel_left hsecond : _ = [_]) ▸ List.mem_cons_self)
  have hcyc : IsCycle pairWorld.waitsFor.Edge [threadA, threadB] := .of_isChain (by decide) (by decide)
  refine hnew [threadA, threadB] hcyc ⟨e₁, he₁, ?_⟩ e₂ he₂ ?_
  . rw [Detects, hcycle₁]
    exact .refl _
  . rw [Detects, hcycle₂]
    exact ⟨1, rfl⟩

end twice

end DeadlockInterceptor
