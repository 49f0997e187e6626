import DeadlockInterceptor.Lemmas.Resolvers
import DeadlockInterceptor.Lemmas.IterationOrder

/-!
This module contains the rules for the loop of the detection pass over the threads: what one turn of it can
do, and what that means for all calls of `dfs_deadlock` the loop makes.
-/

open Relation DirectedGraph

namespace DeadlockInterceptor

namespace World

/--
What a resolution can do to the wait-for graph: nothing, or it forgets the victim of strategy 1 or the
thread that `emergency_deadlock_break` identifies by the tid of its victim.
-/
theorem resolveThreadDeadlock_cases {env : ResolveEnv} {cycle : List ThreadName} {w w' : World}
    {res : Except Exn Unit} (h : w.resolveThreadDeadlock env cycle = (res, w')) :
    w'.targetPid = w.targetPid ∧
      ((w'.waitsFor = w.waitsFor ∧ w'.threadInfoCache = w.threadInfoCache) ∨
        (∃ victim tid, findVictim env.strategy1.threadExists cycle = .ok (some (victim, tid)) ∧
          tid ≠ 0 ∧ w'.waitsFor = w.waitsFor.erase victim ∧
          w'.threadInfoCache = w.threadInfoCache) ∨
        (∃ victim tid, findVictim env.emergency.threadExists cycle = .ok (some (victim, tid)) ∧
          w'.waitsFor
            = w.waitsFor.erase (w.toGlobalState.threadIdentifier env.emergency.proc tid).1 ∧
          w'.threadInfoCache
            = (w.toGlobalState.threadIdentifier env.emergency.proc tid).2.threadInfoCache)) := by
  have hw' : (w.resolveThreadDeadlock env cycle).2 = w' := by rw [h]
  rw [← hw']
  unfold resolveThreadDeadlock
  simp only
  generalize hdeadlock : DeadlockInfo.mk cycle _ _ false = deadlock
  have hcycle : deadlock.cycle = cycle := by rw [← hdeadlock]
  rcases resolveDeadlockStrategy1_cases env.strategy1 deadlock
      { w with deadlockCounter := w.deadlockCounter + 1 } with
    ⟨e, -, heq⟩ | ⟨memory, heq⟩ | ⟨victim, tid, run, status, hfind, htid, -, -, heq⟩
  . rw [heq]
    exact ⟨rfl, .inl ⟨rfl, rfl⟩⟩
  . rw [heq]
    simp only
    rcases emergencyDeadlockBreak_cases env.emergency deadlock
        { w with deadlockCounter := w.deadlockCounter + 1, memory := memory, monitoringActive := true } with
      ⟨e, -, heq2⟩ | ⟨-, heq2⟩ | ⟨victim, tid, w', hfind, heq2, hw', -, htarget', hcache'⟩
    . rw [heq2]
      exact ⟨rfl, .inl ⟨rfl, rfl⟩⟩
    . rw [heq2]
      exact ⟨rfl, .inl ⟨rfl, rfl⟩⟩
    . rw [heq2]
      rw [hcycle] at hfind
      exact ⟨htarget', .inr (.inr ⟨victim, tid, hfind, hw', hcache'⟩)⟩
  . rw [heq]
    rw [hcycle] at hfind
    exact ⟨rfl, .inr (.inl ⟨victim, tid, hfind, htid, rfl, rfl⟩)⟩

theorem resolveThreadDeadlock_of_shadow (env : ResolveEnv) (w : World) {cycle : List ThreadName}
    {victim : ThreadName} {tid : Pid} {run : ShadowRun} {status : WaitStatus}
    (hfind : findVictim env.strategy1.threadExists cycle = .ok (some (victim, tid))) (htid : tid ≠ 0)
    (hrun : env.strategy1.shadow = some run) (hstatus : run.status = some status) :
    ∃ w', w.resolveThreadDeadlock env cycle = (.ok (), w') ∧ w'.waitsFor = w.waitsFor.erase victim := by
  have hresult : (w.resolveThreadDeadlock env cycle).1 = .ok () ∧
      (w.resolveThreadDeadlock env cycle).2.waitsFor = w.waitsFor.erase victim := by
    simp only [resolveThreadDeadlock, resolveDeadlockStrategy1, hfind, if_neg htid, hrun, hstatus]
    exact ⟨trivial, rfl⟩
  exact ⟨_, Prod.ext hresult.1 rfl, hresult.2⟩

theorem resolveThreadDeadlock_of_emergency (env : ResolveEnv) (w : World) {cycle : List ThreadName}
    {victim : ThreadName} {tid : Pid}
    (hfind1 : findVictim env.strategy1.threadExists cycle = .ok (some (victim, tid)))
    (hfind2 : findVictim env.emergency.threadExists cycle = .ok (some (victim, tid)))
    (hshadow : env.strategy1.shadow = none) :
    ∃ w', w.resolveThreadDeadlock env cycle = (.ok (), w') ∧
      w'.waitsFor
        = w.waitsFor.erase (w.toGlobalState.threadIdentifier env.emergency.proc tid).1 := by
  have hresult : (w.resolveThreadDeadlock env cycle).1 = .ok () ∧
      (w.resolveThreadDeadlock env cycle).2.waitsFor
        = w.waitsFor.erase (w.toGlobalState.threadIdentifier env.emergency.proc tid).1 := by
    simp only [resolveThreadDeadlock, resolveDeadlockStrategy1, hfind1, hshadow, ite_self,
      emergencyDeadlockBreak, hfind2]
    exact ⟨trivial, rfl⟩
  exact ⟨_, Prod.ext hresult.1 rfl, hresult.2⟩

end World

namespace ScanState

def dfsState (st : ScanState) : DfsState := ⟨st.visited, st.stack, []⟩

def afterDfs (st : ScanState) (d : DfsState) : ScanState :=
  { st with visited := d.visited, stack := d.stack }

variable {env : ThreadName → ResolveEnv} {st st' : ScanState} {r : ThreadName}

theorem turn_cases (env : ResolveEnv) (r : ThreadName) (st : ScanState) :
    ((r ∉ st.world.waitsFor ∨ r ∈ st.visited) ∧ st.turn env r = .returned st) ∨
    (r ∈ st.world.waitsFor ∧ r ∉ st.visited ∧
      ∃ b d, dfsDeadlock st.world.waitsFor r st.dfsState = (b, d) ∧
        ((b = false ∧ st.turn env r = .returned (st.afterDfs d)) ∨
          (b = true ∧ (st.turn env r = .returned (st.afterDfs d) ∨
            ∃ res w, st.world.resolveThreadDeadlock env d.cycle.reverse = (res, w) ∧
              ((∃ e, res = .error e ∧ st.turn env r = .thrown e { st.afterDfs d with world := w }) ∨
                (r ∉ w.waitsFor ∧ st.turn env r = .undefined) ∨
                (r ∈ w.waitsFor ∧
                  st.turn env r = .returned { st.afterDfs d with world := w })))))) := by
  unfold turn
  split
  . next h => exact .inl ⟨.inl h, rfl⟩
  . next h =>
    rw [not_not] at h
    split
    . next hvis =>
      refine .inr ⟨h, hvis, ?_⟩
      cases hd : dfsDeadlock st.world.waitsFor r st.dfsState with
      | mk b d =>
        refine ⟨b, d, rfl, ?_⟩
        unfold dfsState at hd
        rw [hd]
        cases b with
        | false => exact .inl ⟨rfl, rfl⟩
        | true =>
          refine .inr ⟨rfl, ?_⟩
          simp only
          split
          . right
            generalize st.world.resolveThreadDeadlock env d.cycle.reverse = result
            obtain ⟨res, w⟩ := result
            refine ⟨res, w, rfl, ?_⟩
            cases res with
            | error e => exact .inl ⟨e, rfl, rfl⟩
            | ok _ =>
              simp only
              split
              . next herased => exact .inr (.inl ⟨herased, rfl⟩)
              . next herased => exact .inr (.inr ⟨not_not.mp herased, rfl⟩)
          . exact .inl rfl
    . next hvis => exact .inl ⟨.inr (not_not.mp hvis), rfl⟩

theorem turn_eq_returned {env : ResolveEnv} (h : st.turn env r = .returned st') :
    ((r ∉ st.world.waitsFor ∨ r ∈ st.visited) ∧ st' = st) ∨
    (r ∈ st.world.waitsFor ∧ r ∉ st.visited ∧
      ∃ b d, dfsDeadlock st.world.waitsFor r st.dfsState = (b, d) ∧
        st'.visited = d.visited ∧ st'.stack = d.stack ∧
        (st'.world = st.world ∨
          b = true ∧ ∃ res, st.world.resolveThreadDeadlock env d.cycle.reverse = (res, st'.world))) := by
  rcases turn_cases env r st with ⟨hskip, heq⟩ | ⟨hmem, hvis, b, d, hd, hcases⟩
  . rw [heq, Outcome.returned.injEq] at h
    exact .inl ⟨hskip, h.symm⟩
  . refine .inr ⟨hmem, hvis, b, d, hd, ?_⟩
    rcases hcases with ⟨-, heq⟩ | ⟨hb, heq | ⟨res, w, hres, ⟨e, -, heq⟩ | ⟨-, heq⟩ | ⟨-, heq⟩⟩⟩
    . rw [heq, Outcome.returned.injEq] at h
      rw [← h]
      exact ⟨rfl, rfl, .inl rfl⟩
    . rw [heq, Outcome.returned.injEq] at h
      rw [← h]
      exact ⟨rfl, rfl, .inl rfl⟩
    . rw [heq] at h
      simp at h
    . rw [heq] at h
      simp at h
    . rw [heq, Outcome.returned.injEq] at h
      rw [← h]
      exact ⟨rfl, rfl, .inr ⟨hb, res, hres⟩⟩

theorem turn_eq_undefined {env : ResolveEnv} (h : st.turn env r = .undefined) :
    r ∈ st.world.waitsFor ∧ r ∉ st.visited ∧
      ∃ d res w, dfsDeadlock st.world.waitsFor r st.dfsState = (true, d) ∧
        st.world.resolveThreadDeadlock env d.cycle.reverse = (res, w) ∧ r ∉ w.waitsFor := by
  rcases turn_cases env r st with ⟨-, heq⟩ | ⟨hmem, hvis, b, d, hd, hcases⟩
  . rw [heq] at h
    simp at h
  . refine ⟨hmem, hvis, d, ?_⟩
    rcases hcases with ⟨-, heq⟩ | ⟨rfl, heq | ⟨res, w, hres, ⟨e, -, heq⟩ | ⟨herased, -⟩ | ⟨-, heq⟩⟩⟩
    . rw [heq] at h
      simp at h
    . rw [heq] at h
      simp at h
    . rw [heq] at h
      simp at h
    . exact ⟨res, w, hd, hres, herased⟩
    . rw [heq] at h
      simp at h

theorem loop_append (pre post : List ThreadName) (st : ScanState) :
    loop env (pre ++ post) st
      =
    match loop env pre st with
    | .returned st => loop env post st
    | .thrown e st => .thrown e st
    | .undefined => .undefined := by
  induction pre generalizing st with
  | nil => rfl
  | cons r pre ih =>
    rw [List.cons_append, loop, loop]
    cases turn (env r) r st with
    | returned st => exact ih st
    | thrown e st => rfl
    | undefined => rfl

theorem loop_concat_eq_returned {pre : List ThreadName} :
    loop env (pre ++ [r]) st = .returned st'
      ↔
    ∃ st₁, loop env pre st = .returned st₁ ∧ st₁.turn (env r) r = .returned st' := by
  rw [loop_append]
  cases loop env pre st with
  | returned st₁ =>
    simp only [loop, Outcome.returned.injEq, exists_eq_left']
    cases turn (env r) r st₁ <;> simp
  | thrown e st₁ => simp
  | undefined => simp

theorem loop_invariant {I : ScanState → Prop}
    (hturn : ∀ r st st', I st → st.turn (env r) r = .returned st' → I st') {keys : List ThreadName}
    (h : loop env keys st = .returned st') (hst : I st) : I st' := by
  induction keys generalizing st with
  | nil =>
    simp only [loop, Outcome.returned.injEq] at h
    rwa [← h]
  | cons r keys ih =>
    rw [loop] at h
    split at h
    . next st₁ heq => exact ih h (hturn r st st₁ hst heq)
    . simp at h
    . simp at h

theorem exists_turn_of_loop_undefined {keys : List ThreadName} (h : loop env keys st = .undefined) :
    ∃ pre r post st₁, keys = pre ++ r :: post ∧ loop env pre st = .returned st₁ ∧
      st₁.turn (env r) r = .undefined := by
  induction keys generalizing st with
  | nil => simp [loop] at h
  | cons r keys ih =>
    rw [loop] at h
    split at h
    . next st₁ heq =>
      obtain ⟨pre, r', post, st₂, rfl, hpre, hturn⟩ := ih h
      refine ⟨r :: pre, r', post, st₂, rfl, ?_, hturn⟩
      rw [loop, heq]
      exact hpre
    . simp at h
    . next heq => exact ⟨[], r, keys, st, rfl, rfl, heq⟩

theorem turn_of_visited {env : ResolveEnv} (h : r ∈ st.visited) : st.turn env r = .returned st := by
  rw [turn, if_neg (not_not.mpr h)]
  split <;> rfl

theorem loop_of_visited {keys : List ThreadName} (h : ∀ t ∈ keys, t ∈ st.visited) :
    loop env keys st = .returned st := by
  induction keys with
  | nil => rfl
  | cons r keys ih =>
    rw [loop, turn_of_visited (h r List.mem_cons_self)]
    exact ih fun t ht => h t (List.mem_cons_of_mem r ht)

theorem turn_of_recorded (env : ResolveEnv) (st : ScanState) {d : DfsState} (hmem : r ∈ st.world.waitsFor)
    (hvis : r ∉ st.visited) (hd : dfsDeadlock st.world.waitsFor r st.dfsState = (true, d))
    (hrecorded : ∃ existing ∈ st.world.detectedDeadlocks, existing.cycle = d.cycle.reverse) :
    st.turn env r = .returned (st.afterDfs d) := by
  unfold dfsState at hd
  have hold : ¬∀ existing ∈ st.world.detectedDeadlocks, existing.cycle ≠ d.cycle.reverse := by
    intro h
    obtain ⟨existing, hin, heq⟩ := hrecorded
    exact h existing hin heq
  rw [turn, if_neg (not_not.mpr hmem), if_pos hvis, hd]
  simp only
  rw [if_neg (fun h => hold h.2)]
  rfl

theorem turn_of_new (env : ResolveEnv) (st : ScanState) {d : DfsState} (hmem : r ∈ st.world.waitsFor)
    (hvis : r ∉ st.visited) (hd : dfsDeadlock st.world.waitsFor r st.dfsState = (true, d))
    (hlength : 2 ≤ d.cycle.reverse.length)
    (hnew : ∀ existing ∈ st.world.detectedDeadlocks, existing.cycle ≠ d.cycle.reverse) :
    st.turn env r
      =
    match st.world.resolveThreadDeadlock env d.cycle.reverse with
    | (.error e, world) => .thrown e { st.afterDfs d with world := world }
    | (.ok (), world) =>
      if r ∉ world.waitsFor then .undefined else .returned { st.afterDfs d with world := world } := by
  unfold dfsState at hd
  rw [turn, if_neg (not_not.mpr hmem), if_pos hvis, hd]
  simp only
  rw [if_pos ⟨hlength, hnew⟩]
  rfl

theorem waitsFor_of_loop_of_dead (hdead1 : ∀ r tid, (env r).strategy1.threadExists tid = false)
    (hdead2 : ∀ r tid, (env r).emergency.threadExists tid = false) {keys : List ThreadName}
    (h : loop env keys st = .returned st') : st'.world.waitsFor = st.world.waitsFor := by
  have hnone : ∀ (threadExists : Pid → Bool), (∀ tid, threadExists tid = false) →
      ∀ l x, findVictim threadExists l ≠ .ok (some x) := by
    intro threadExists hdead l x heq
    rcases findVictim_cases threadExists l with
      ⟨_, _, _, tid, -, -, -, hlive, -⟩ | ⟨_, -, e, -, herr⟩ | ⟨-, hnone⟩
    . rw [hdead tid] at hlive
      simp at hlive
    . rw [herr] at heq
      simp at heq
    . rw [hnone] at heq
      simp at heq
  refine loop_invariant (I := fun st₁ => st₁.world.waitsFor = st.world.waitsFor) ?_ h rfl
  intro r st₁ st₂ hst₁ hturn
  rcases turn_eq_returned hturn with ⟨-, rfl⟩ | ⟨-, -, b, d, -, -, -, heq | ⟨-, res, hres⟩⟩
  . exact hst₁
  . rw [heq]
    exact hst₁
  . rcases (World.resolveThreadDeadlock_cases hres).2 with ⟨hw', -⟩ | ⟨victim, tid, hfind, -⟩ | ⟨victim, tid, hfind, -⟩
    . exact hw'.trans hst₁
    . exact absurd hfind (hnone _ (hdead1 r) _ _)
    . exact absurd hfind (hnone _ (hdead2 r) _ _)

structure IsCall (env : ThreadName → ResolveEnv) (st : ScanState) (pre : List ThreadName)
    (r : ThreadName) (st' : ScanState) (b : Bool) (d : DfsState) : Prop where
  before : loop env pre st = .returned st'
  mem : r ∈ st'.world.waitsFor
  unvisited : r ∉ st'.visited
  result : dfsDeadlock st'.world.waitsFor r st'.dfsState = (b, d)

theorem IsCall.cons {pre : List ThreadName} {r₀ : ThreadName} {st₁ : ScanState} {b : Bool}
    {d : DfsState} (hturn : st.turn (env r₀) r₀ = .returned st₁)
    (h : IsCall env st₁ pre r st' b d) : IsCall env st (r₀ :: pre) r st' b d := by
  refine ⟨?_, h.mem, h.unvisited, h.result⟩
  rw [loop, hturn]
  exact h.before

structure Unsuccessful (w : World) (st : ScanState) : Prop where
  world : st.world = w
  stack : st.stack = ∅
  finished : dfsDeadlock.Finished w.waitsFor st.dfsState

theorem unsuccessful_init (w : World) : Unsuccessful w ⟨w, ∅, ∅⟩ :=
  ⟨rfl, rfl, fun t ht => absurd ht (Finset.notMem_empty t)⟩

theorem Unsuccessful.called {w : World} (h : Unsuccessful w st) {b : Bool} {d : DfsState}
    (hd : dfsDeadlock w.waitsFor r st.dfsState = (b, d)) :
    dfsDeadlock.Called w.waitsFor r st.dfsState b d := by
  have hstack : st.dfsState.stack = ∅ := h.stack
  apply dfsDeadlock.called hd
  . rw [hstack]
    exact Finset.notMem_empty r
  . rw [hstack]
    exact Finset.empty_subset _
  . exact h.finished

structure FirstFound (env : ThreadName → ResolveEnv) (w : World) (st : ScanState)
    (keys pre : List ThreadName) (r : ThreadName) (st' : ScanState) (d : DfsState) : Prop where
  keys_eq : ∃ post, keys = pre ++ r :: post
  call : IsCall env st pre r st' true d
  unsuccessful : Unsuccessful w st'
  first : ∀ pre' r' post' st'' d', pre = pre' ++ r' :: post' → ¬IsCall env st pre' r' st'' true d'

theorem FirstFound.cons {w : World} {keys pre : List ThreadName} {r₀ : ThreadName} {st₁ : ScanState}
    {d : DfsState} (h : FirstFound env w st₁ keys pre r st' d)
    (hturn : st.turn (env r₀) r₀ = .returned st₁)
    (hnone : ∀ st'' d', ¬IsCall env st [] r₀ st'' true d') :
    FirstFound env w st (r₀ :: keys) (r₀ :: pre) r st' d where
  keys_eq := by
    obtain ⟨post, heq⟩ := h.keys_eq
    exact ⟨post, by rw [heq, List.cons_append]⟩
  call := h.call.cons hturn
  unsuccessful := h.unsuccessful
  first := by
    intro pre' r' post' st'' d' heq hcall
    cases pre' with
    | nil =>
      rw [List.nil_append, List.cons.injEq] at heq
      rw [← heq.1] at hcall
      exact hnone st'' d' hcall
    | cons x pre' =>
      rw [List.cons_append, List.cons.injEq] at heq
      obtain ⟨rfl, heq⟩ := heq
      refine h.first pre' r' post' st'' d' heq ⟨?_, hcall.mem, hcall.unvisited, hcall.result⟩
      have hbefore := hcall.before
      rw [loop, hturn] at hbefore
      exact hbefore

theorem exists_first_found (env : ThreadName → ResolveEnv) {w : World} (keys : List ThreadName)
    (h : Unsuccessful w st) :
    (∃ pre r st' d, FirstFound env w st keys pre r st' d) ∨
    (∃ st', loop env keys st = .returned st' ∧ Unsuccessful w st' ∧ st.visited ⊆ st'.visited ∧
      ∀ t ∈ keys, t ∈ w.waitsFor → t ∈ st'.visited) := by
  induction keys generalizing st with
  | nil => exact .inr ⟨st, rfl, h, subset_rfl, by simp⟩
  | cons r keys ih =>
    -- a turn without success leads to `st₁`, and the call it makes, if any, is not the first success
    have hnext : ∀ st₁, st.turn (env r) r = .returned st₁ → Unsuccessful w st₁ →
        st.visited ⊆ st₁.visited → (r ∈ w.waitsFor → r ∈ st₁.visited) →
        (∀ st'' d', ¬IsCall env st [] r st'' true d') →
        (∃ pre r' st' d, FirstFound env w st (r :: keys) pre r' st' d) ∨
        (∃ st', loop env (r :: keys) st = .returned st' ∧ Unsuccessful w st' ∧
          st.visited ⊆ st'.visited ∧ ∀ t ∈ r :: keys, t ∈ w.waitsFor → t ∈ st'.visited) := by
      intro st₁ hturn h₁ hvis hr hnone
      rcases ih h₁ with ⟨pre, r', st', d, hfound⟩ | ⟨st', hloop, hst', hsub, hall⟩
      . exact .inl ⟨r :: pre, r', st', d, hfound.cons hturn hnone⟩
      . refine .inr ⟨st', ?_, hst', hvis.trans hsub, ?_⟩
        . rw [loop, hturn]
          exact hloop
        . intro t ht htw
          rcases List.mem_cons.mp ht with rfl | ht
          . exact hsub (hr htw)
          . exact hall t ht htw
    have hcall_eq : ∀ {st'' d'}, IsCall env st [] r st'' true d' → st = st'' := by
      intro st'' d' hcall
      simpa [loop] using hcall.before
    rcases turn_cases (env r) r st with ⟨hskip, hturn⟩ | ⟨hmem, hvis, b, d, hd, hcases⟩
    . apply hnext st hturn h subset_rfl
      . intro hrw
        rw [h.world] at hskip
        exact hskip.resolve_left (not_not.mpr hrw)
      . intro st'' d' hcall
        obtain rfl := hcall_eq hcall
        rcases hskip with hskip | hskip
        . exact hskip hcall.mem
        . exact hcall.unvisited hskip
    . rw [h.world] at hd
      have hcalled := h.called hd
      rcases hcases with ⟨rfl, hturn⟩ | ⟨rfl, -⟩
      . obtain ⟨hstack, -⟩ := hcalled.notFound rfl
        apply hnext _ hturn
        . exact ⟨h.world, hstack.trans h.stack, hcalled.finished⟩
        . exact (Finset.subset_insert r st.visited).trans hcalled.visited
        . exact fun _ => hcalled.visited (Finset.mem_insert_self r st.visited)
        . intro st'' d' hcall
          obtain rfl := hcall_eq hcall
          have := hcall.result
          rw [h.world, hd] at this
          simp at this
      . refine .inl ⟨[], r, st, d, ⟨keys, rfl⟩, ⟨rfl, hmem, hvis, ?_⟩, h, by simp⟩
        rw [h.world]
        exact hd

end ScanState

end DeadlockInterceptor
