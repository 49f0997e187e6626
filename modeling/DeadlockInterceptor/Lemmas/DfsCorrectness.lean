import DeadlockInterceptor.Lemmas.CycleBirth

/-!
This module contains the correctness of `dfs_deadlock` on fresh sets. The calls of the recursion are
counted with a search that also writes down which threads it enters.
-/

open Relation DirectedGraph

namespace DeadlockInterceptor

namespace dfsDeadlock

variable (waitsFor : WaitsFor)

def scanLog (dfs : ThreadName → DfsState → Option (List ThreadName × Bool × DfsState))
    (threadName : ThreadName) :
    List ThreadName → DfsState → Option (List ThreadName × Bool × DfsState)
  | [], s => some ([], false, s)
  | neighbor :: rest, s =>
    if neighbor ∈ s.stack then
      some ([], true, { s with cycle := s.cycle ++ [neighbor, threadName] })
    else if neighbor ∉ s.visited then
      match dfs neighbor s with
      | none => none
      | some (log, true, s) => some (log, true, { s with cycle := s.cycle ++ [threadName] })
      | some (log, false, s) => (scanLog dfs threadName rest s).map fun r => (log ++ r.1, r.2)
    else
      scanLog dfs threadName rest s

/--
`go` with the threads that are entered by the call and by the calls below it.
-/
def goLog : Nat → ThreadName → DfsState → Option (List ThreadName × Bool × DfsState)
  | 0, _, _ => none
  | fuel + 1, threadName, s =>
    match scanLog (goLog fuel) threadName (waitsFor.getD threadName ∅).toList (enter threadName s) with
    | none => none
    | some (log, true, s) => some (threadName :: log, true, s)
    | some (log, false, s) => some (threadName :: log, false, { s with stack := s.stack.erase threadName })

theorem map_snd_scanLog (dfs : ThreadName → DfsState → Option (List ThreadName × Bool × DfsState))
    (t : ThreadName) (l : List ThreadName) (s : DfsState) :
    (scanLog dfs t l s).map Prod.snd = scan (fun u s => (dfs u s).map Prod.snd) t l s := by
  induction l generalizing s with
  | nil => rfl
  | cons n l ih =>
    unfold scanLog scan
    split
    . rfl
    . split
      . cases dfs n s with
        | none => rfl
        | some r =>
          obtain ⟨log, b, s₂⟩ := r
          cases b with
          | true => rfl
          | false =>
            simp only [Option.map_some, Option.map_map]
            rw [← ih]
            rfl
      . exact ih s

theorem map_snd_goLog (fuel : Nat) (t : ThreadName) (s : DfsState) :
    (goLog waitsFor fuel t s).map Prod.snd = go waitsFor fuel t s := by
  induction fuel generalizing t s with
  | zero => rfl
  | succ fuel ih =>
    have hscan := map_snd_scanLog (goLog waitsFor fuel) t (waitsFor.getD t ∅).toList (enter t s)
    simp only [ih] at hscan
    rw [goLog, go, ← hscan]
    cases scanLog (goLog waitsFor fuel) t (waitsFor.getD t ∅).toList (enter t s) with
    | none => rfl
    | some r =>
      obtain ⟨log, b, s₂⟩ := r
      cases b <;> rfl

variable {waitsFor}

structure Entered (waitsFor : WaitsFor) (t : ThreadName) (s : DfsState) (log : List ThreadName)
    (s' : DfsState) : Prop where
  nodup : log.Nodup
  new : ∀ u ∈ log, u ∉ s.visited
  visited : ∀ u, u ∈ s'.visited ↔ u ∈ s.visited ∨ u ∈ log
  reach : ∀ u ∈ log, ReflTransGen waitsFor.Edge t u

def Closed (waitsFor : WaitsFor) (log : List ThreadName) (s : DfsState) : Prop :=
  ∀ u ∈ log, ∀ v, waitsFor.Edge u v → v ∈ s.visited

theorem entered_nil (t : ThreadName) (s : DfsState) : Entered waitsFor t s [] s where
  nodup := .nil
  new := by simp
  visited := by simp
  reach := by simp

theorem Entered.of_visited_eq {t : ThreadName} {s s₂ s' : DfsState} {log : List ThreadName}
    (h : Entered waitsFor t s log s₂) (heq : s'.visited = s₂.visited) : Entered waitsFor t s log s' where
  nodup := h.nodup
  new := h.new
  visited u := by rw [heq, h.visited]
  reach := h.reach

theorem Entered.append {t u : ThreadName} {s s₂ s' : DfsState} {log log' : List ThreadName}
    (h : Entered waitsFor u s log s₂) (hedge : waitsFor.Edge t u) (h' : Entered waitsFor t s₂ log' s') :
    Entered waitsFor t s (log ++ log') s' where
  nodup := by
    rw [List.nodup_append]
    refine ⟨h.nodup, h'.nodup, ?_⟩
    rintro a ha b hb rfl
    exact h'.new a hb ((h.visited a).mpr (.inr ha))
  new := by
    intro a ha
    rcases List.mem_append.mp ha with ha | ha
    . exact h.new a ha
    . intro hvis
      exact h'.new a ha ((h.visited a).mpr (.inl hvis))
  visited := by
    intro a
    rw [h'.visited, h.visited, List.mem_append, or_assoc]
  reach := by
    intro a ha
    rcases List.mem_append.mp ha with ha | ha
    . exact .head hedge (h.reach a ha)
    . exact h'.reach a ha

theorem Entered.cons {t : ThreadName} {s s' : DfsState} {log : List ThreadName}
    (h : Entered waitsFor t (enter t s) log s') (ht : t ∉ s.visited) :
    Entered waitsFor t s (t :: log) s' where
  nodup := by
    rw [List.nodup_cons]
    refine ⟨?_, h.nodup⟩
    intro hmem
    exact h.new t hmem (Finset.mem_insert_self t s.visited)
  new := by
    intro u hu
    rcases List.mem_cons.mp hu with rfl | hu
    . exact ht
    . intro hvis
      exact h.new u hu (Finset.mem_insert_of_mem hvis)
  visited := by
    intro u
    rw [h.visited, enter, Finset.mem_insert, List.mem_cons]
    tauto
  reach := by
    intro u hu
    rcases List.mem_cons.mp hu with rfl | hu
    . exact .refl
    . exact h.reach u hu

theorem scanLog_spec {dfs : ThreadName → DfsState → Option (List ThreadName × Bool × DfsState)}
    (hdfs : ∀ u s log b s', dfs u s = some (log, b, s') → u ∉ s.visited →
      Entered waitsFor u s log s' ∧ u ∈ log ∧ (b = false → Closed waitsFor log s'))
    {t : ThreadName} {l : List ThreadName} {s s' : DfsState} {log : List ThreadName} {b : Bool}
    (h : scanLog dfs t l s = some (log, b, s')) (hl : ∀ u ∈ l, waitsFor.Edge t u) :
    Entered waitsFor t s log s' ∧
      (b = false → Closed waitsFor log s' ∧ ∀ u ∈ l, u ∈ s'.visited) := by
  induction l generalizing s log with
  | nil =>
    simp only [scanLog, Option.some.injEq, Prod.mk.injEq] at h
    obtain ⟨rfl, rfl, rfl⟩ := h
    exact ⟨entered_nil t s, by simp [Closed]⟩
  | cons n l ih =>
    have hn : waitsFor.Edge t n := hl n List.mem_cons_self
    have hl' : ∀ u ∈ l, waitsFor.Edge t u := fun u hu => hl u (List.mem_cons_of_mem n hu)
    unfold scanLog at h
    split at h
    . simp only [Option.some.injEq, Prod.mk.injEq] at h
      obtain ⟨rfl, rfl, rfl⟩ := h
      exact ⟨(entered_nil t s).of_visited_eq rfl, by simp⟩
    . split at h
      . next hvis =>
        split at h
        . simp at h
        . next log₁ s₂ heq =>
          simp only [Option.some.injEq, Prod.mk.injEq] at h
          obtain ⟨rfl, rfl, rfl⟩ := h
          obtain ⟨hentered, -, -⟩ := hdfs _ _ _ _ _ heq hvis
          have happend := hentered.append hn (entered_nil t s₂)
          rw [List.append_nil] at happend
          exact ⟨happend.of_visited_eq rfl, by simp⟩
        . next log₁ s₂ heq =>
          obtain ⟨⟨log₂, r⟩, hrest, heq₂⟩ := Option.map_eq_some_iff.mp h
          simp only [Prod.mk.injEq] at heq₂
          obtain ⟨rfl, rfl⟩ := heq₂
          obtain ⟨hentered, hmem, hclosed⟩ := hdfs _ _ _ _ _ heq hvis
          obtain ⟨hentered₂, hfalse⟩ := ih hrest hl'
          refine ⟨hentered.append hn hentered₂, ?_⟩
          intro hb
          obtain ⟨hclosed₂, hall⟩ := hfalse hb
          have hkeep : ∀ u, u ∈ s₂.visited → u ∈ s'.visited :=
            fun u hu => (hentered₂.visited u).mpr (.inl hu)
          constructor
          . intro u hu v huv
            rcases List.mem_append.mp hu with hu | hu
            . exact hkeep v (hclosed rfl u hu v huv)
            . exact hclosed₂ u hu v huv
          . intro u hu
            rcases List.mem_cons.mp hu with rfl | hu
            . exact hkeep u ((hentered.visited u).mpr (.inr hmem))
            . exact hall u hu
      . next hvis =>
        obtain ⟨hentered, hfalse⟩ := ih h hl'
        refine ⟨hentered, ?_⟩
        intro hb
        obtain ⟨hclosed, hall⟩ := hfalse hb
        refine ⟨hclosed, ?_⟩
        intro u hu
        rcases List.mem_cons.mp hu with rfl | hu
        . exact (hentered.visited u).mpr (.inl (not_not.mp hvis))
        . exact hall u hu

theorem goLog_spec {fuel : Nat} {t : ThreadName} {s s' : DfsState} {log : List ThreadName} {b : Bool}
    (h : goLog waitsFor fuel t s = some (log, b, s')) (ht : t ∉ s.visited) :
    Entered waitsFor t s log s' ∧ t ∈ log ∧ (b = false → Closed waitsFor log s') := by
  induction fuel generalizing t s log b s' with
  | zero => simp [goLog] at h
  | succ fuel ih =>
    have hedge : ∀ u ∈ (waitsFor.getD t ∅).toList, waitsFor.Edge t u := fun u hu => hu
    unfold goLog at h
    split at h
    . simp at h
    . next log₁ s₂ heq =>
      simp only [Option.some.injEq, Prod.mk.injEq] at h
      obtain ⟨rfl, rfl, rfl⟩ := h
      obtain ⟨hentered, -⟩ := scanLog_spec (fun _ _ _ _ _ h ht => ih h ht) heq hedge
      exact ⟨hentered.cons ht, List.mem_cons_self, by simp⟩
    . next log₁ s₂ heq =>
      simp only [Option.some.injEq, Prod.mk.injEq] at h
      obtain ⟨rfl, rfl, rfl⟩ := h
      obtain ⟨hentered, hfalse⟩ := scanLog_spec (fun _ _ _ _ _ h ht => ih h ht) heq hedge
      obtain ⟨hclosed, hall⟩ := hfalse rfl
      refine ⟨(hentered.cons ht).of_visited_eq rfl, List.mem_cons_self, ?_⟩
      intro _ u hu v huv
      rcases List.mem_cons.mp hu with rfl | hu
      . exact hall v huv
      . exact hclosed u hu v huv

theorem exists_goLog (waitsFor : WaitsFor) (t : ThreadName) (s : DfsState) (k : Nat) :
    ∃ log, goLog waitsFor (waitsFor.targets.card + 1 + k) t s = some (log, dfsDeadlock waitsFor t s) := by
  have hgo : go waitsFor (waitsFor.targets.card + 1 + k) t s = some (dfsDeadlock waitsFor t s) := by
    apply go_mono (Nat.le_add_right _ k)
    exact (Option.some_get _).symm
  rw [← map_snd_goLog] at hgo
  obtain ⟨⟨log, r⟩, hlog, hr⟩ := Option.map_eq_some_iff.mp hgo
  refine ⟨log, ?_⟩
  rw [hlog, ← hr]

structure Correct (waitsFor : WaitsFor) (root : ThreadName) (log : List ThreadName) (b : Bool)
    (s : DfsState) : Prop where
  entered_once : log.Nodup
  found_iff : b = true ↔ ReachesCycle waitsFor.Edge root
  head : b = true → s.cycle.reverse.head? = some root
  two_le : b = true → 2 ≤ s.cycle.reverse.length
  lasso : b = true → IsLasso waitsFor.Edge s.cycle.reverse
  stack : b = false → s.stack = ∅
  cycle : b = false → s.cycle = []
  visited : b = false → ∀ t, t ∈ s.visited ↔ ReflTransGen waitsFor.Edge root t

theorem mem_visited_iff_of_closed {root : ThreadName} {log : List ThreadName} {s : DfsState}
    (hentered : Entered waitsFor root .fresh log s) (hroot : root ∈ log) (hclosed : Closed waitsFor log s)
    (t : ThreadName) : t ∈ s.visited ↔ ReflTransGen waitsFor.Edge root t := by
  have hlog : ∀ u, u ∈ s.visited ↔ u ∈ log := by
    intro u
    rw [hentered.visited]
    exact or_iff_right (Finset.notMem_empty u)
  constructor
  . intro ht
    exact hentered.reach t ((hlog t).mp ht)
  . intro h
    induction h with
    | refl => exact (hlog root).mpr hroot
    | tail _ hedge ih => exact hclosed _ ((hlog _).mp ih) _ hedge

/--
`dfs_deadlock` on fresh sets returns, enters no thread twice, finds a cycle exactly if one can be reached,
and leaves behind the way to it or the set of all threads that can be reached.
-/
theorem dfsDeadlock_correct (waitsFor : WaitsFor) (root : ThreadName) (k : Nat) :
    ∃ log, goLog waitsFor (waitsFor.targets.card + 1 + k) root .fresh
        = some (log, dfsDeadlock waitsFor root .fresh) ∧
      Correct waitsFor root log (dfsDeadlock waitsFor root .fresh).1 (dfsDeadlock waitsFor root .fresh).2 := by
  obtain ⟨log, hlog⟩ := exists_goLog waitsFor root .fresh k
  refine ⟨log, hlog, ?_⟩
  obtain ⟨hentered, hroot, hclosed⟩ := goLog_spec hlog (Finset.notMem_empty root)
  have hcalled := called (Prod.mk.eta (p := dfsDeadlock waitsFor root .fresh)).symm
    (Finset.notMem_empty root) (Finset.empty_subset _) (fun u hu => absurd hu (Finset.notMem_empty u))
  have hfound : (dfsDeadlock waitsFor root .fresh).1 = true → ∃ p y,
      (dfsDeadlock waitsFor root .fresh).2.cycle.reverse = root :: p ++ [y] ∧
        IsLasso waitsFor.Edge (dfsDeadlock waitsFor root .fresh).2.cycle.reverse := by
    intro h
    obtain ⟨p, y, hfound⟩ := hcalled.found h
    exact ⟨p, y, hfound.reverse_cycle rfl, hfound.isLasso rfl hfound.hit_fresh⟩
  constructor
  . exact hentered.nodup
  . exact fresh_eq_true_iff
  . intro h
    obtain ⟨p, y, heq, -⟩ := hfound h
    rw [heq]
    rfl
  . intro h
    obtain ⟨p, y, heq, -⟩ := hfound h
    rw [heq, List.length_append, List.length_cons, List.length_singleton]
    omega
  . intro h
    obtain ⟨p, y, -, hlasso⟩ := hfound h
    exact hlasso
  . intro h
    exact (hcalled.notFound h).1
  . intro h
    exact (hcalled.notFound h).2
  . intro h
    exact mem_visited_iff_of_closed hentered hroot (hclosed h)

end dfsDeadlock

end DeadlockInterceptor
