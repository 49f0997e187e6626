import DeadlockInterceptor.Impl.Main
import DeadlockInterceptor.Lemmas.MonitoringFlag
import DeadlockInterceptor.Transition.Run

/-!
This module contains the rule for what the detection pass and the loop of `main` keep: it is enough that the
two resolvers keep it.
-/

namespace DeadlockInterceptor

def Outcome.Forall {σ : Type} (p : σ → Prop) : Outcome σ → Prop
  | .returned s => p s
  | .thrown _ s => p s
  | .undefined => True

theorem Outcome.Forall.imp {σ : Type} {p q : σ → Prop} {outcome : Outcome σ} (h : outcome.Forall p)
    (hpq : ∀ s, p s → q s) : outcome.Forall q := by
  cases outcome with
  | returned s => exact hpq s h
  | thrown e s => exact hpq s h
  | undefined => trivial

namespace ScanState

variable {I : World → Prop} {st : ScanState}

theorem forall_turn {env : ResolveEnv}
    (hthread : ∀ cycle w, I w → I (w.resolveThreadDeadlock env cycle).2) (r : ThreadName) (h : I st.world) :
    (st.turn env r).Forall fun st => I st.world := by
  rcases turn_cases env r st with ⟨-, heq⟩ | ⟨-, -, b, d, -, hcases⟩
  . rw [heq]
    exact h
  . rcases hcases with ⟨-, heq⟩ | ⟨-, heq | ⟨res, w, hres, hends⟩⟩
    . rw [heq]
      exact h
    . rw [heq]
      exact h
    . have hw := hthread d.cycle.reverse st.world h
      rw [hres] at hw
      rcases hends with ⟨e, -, heq⟩ | ⟨-, heq⟩ | ⟨-, heq⟩
      . rw [heq]
        exact hw
      . rw [heq]
        trivial
      . rw [heq]
        exact hw

theorem forall_loop {env : ThreadName → ResolveEnv}
    (hthread : ∀ r cycle w, I w → I (w.resolveThreadDeadlock (env r) cycle).2) (keys : List ThreadName)
    (h : I st.world) :
    (loop env keys st).Forall fun st => I st.world := by
  induction keys generalizing st with
  | nil => exact h
  | cons r keys ih =>
    have hturn := forall_turn (hthread r) r h
    rw [loop]
    cases hr : st.turn (env r) r with
    | returned st₁ =>
      rw [hr] at hturn
      exact ih hturn
    | thrown e st₁ =>
      rw [hr] at hturn
      exact hturn
    | undefined => trivial

end ScanState

namespace World

variable {I : World → Prop} {w : World}

theorem forall_detectAndResolveDeadlocks {env : PassEnv}
    (hthread : ∀ r cycle w, I w → I (w.resolveThreadDeadlock (env.resolve r) cycle).2)
    (hgroup : ∀ ho env groupDeadlock w, I w →
      I (resolveGroupDeadlock ho env groupDeadlock { w with deadlockCounter := w.deadlockCounter + 1 }).2)
    (h : I w) : (w.detectAndResolveDeadlocks env).Forall I := by
  have hscan : (w.scanThreads env.resolve).Forall I := by
    have hloop : (ScanState.loop env.resolve w.waitsFor.keys ⟨w, ∅, ∅⟩).Forall fun st => I st.world :=
      ScanState.forall_loop hthread w.waitsFor.keys h
    unfold scanThreads
    cases hl : ScanState.loop env.resolve w.waitsFor.keys ⟨w, ∅, ∅⟩ with
    | returned st =>
      rw [hl] at hloop
      exact hloop
    | thrown e st =>
      rw [hl] at hloop
      exact hloop
    | undefined => trivial
  unfold detectAndResolveDeadlocks
  split
  . exact h
  . split
    . exact h
    . next groupDeadlock _ =>
      split
      . exact hgroup env.orders env.group groupDeadlock w h
      . exact hscan

theorem handleEvent_of_tidAlive {event : EventEnv} {tid : Pid} (halive : event.tidAlive = true) :
    w.handleEvent event tid
      =
    match (w.afterSyscall event tid).detectAndResolveDeadlocks event.pass with
    | .thrown _ w' => .returned w'
    | outcome => outcome := by
  unfold handleEvent
  simp only [halive, Bool.not_true, Bool.false_eq_true, ↓reduceIte]
  rfl

theorem handleEvent_of_dead {event : EventEnv} {tid : Pid} (hdead : event.tidAlive = false) :
    w.handleEvent event tid = .returned w := by
  simp only [handleEvent, hdead, Bool.not_false, ↓reduceIte]

theorem handleEvent_ne_thrown (event : EventEnv) (tid : Pid) (w : World) (e : Exn) (w' : World) :
    w.handleEvent event tid ≠ .thrown e w' := by
  cases halive : event.tidAlive with
  | false =>
    rw [handleEvent_of_dead halive]
    simp
  | true =>
    rw [handleEvent_of_tidAlive halive]
    split
    . simp
    . next hne => exact hne e w'

theorem detectAndResolveDeadlocks_ne_undefined {env : PassEnv}
    (hkeep : ∀ r cycle w, (resolveThreadDeadlock (env.resolve r) cycle w).2.waitsFor = w.waitsFor) :
    w.detectAndResolveDeadlocks env ≠ .undefined := by
  have hscan : w.scanThreads env.resolve ≠ .undefined := by
    unfold scanThreads
    split
    . simp
    . simp
    . next hloop =>
      obtain ⟨pre, r, post, st, -, -, hturn⟩ := ScanState.exists_turn_of_loop_undefined hloop
      obtain ⟨hmem, -, d, res, w', -, hres, herased⟩ := ScanState.turn_eq_undefined hturn
      have hw' := hkeep r d.cycle.reverse st.world
      rw [hres] at hw'
      rw [hw'] at herased
      exact absurd hmem herased
  unfold detectAndResolveDeadlocks
  split
  . simp
  . split
    . simp
    . split
      . simp [resolveGroupDeadlock]
      . exact hscan

theorem forall_handleEvent {event : EventEnv} {tid : Pid}
    (hthread : ∀ r cycle w, I w → I (w.resolveThreadDeadlock (event.pass.resolve r) cycle).2)
    (hgroup : ∀ ho env groupDeadlock w, I w →
      I (resolveGroupDeadlock ho env groupDeadlock { w with deadlockCounter := w.deadlockCounter + 1 }).2)
    (hdropped : event.tidAlive = false → I w)
    (hhandled : event.tidAlive = true → I (w.afterSyscall event tid)) :
    (w.handleEvent event tid).Forall I := by
  cases halive : event.tidAlive with
  | false =>
    rw [handleEvent_of_dead halive]
    exact hdropped halive
  | true =>
    have hpass := forall_detectAndResolveDeadlocks hthread hgroup (hhandled halive)
    rw [handleEvent_of_tidAlive halive]
    split
    . next heq =>
      rw [heq] at hpass
      exact hpass
    . exact hpass

end World

namespace MainState

variable {env : TurnEnv} {m : MainState}

theorem forall_turn {I : World → Prop} (h : I m.world)
    (hevent : env.tidAlive = true → (m.world.handleEvent env.event env.tid).Forall I) :
    (m.turn env).Forall fun m => I m.world := by
  unfold turn
  split_ifs with _ halive
  . exact h
  . exact h
  . exact h
  . have hforall := hevent (by simpa using halive)
    cases heq : m.world.handleEvent env.event env.tid with
    | returned w =>
      rw [heq] at hforall
      exact hforall
    | thrown e w =>
      rw [heq] at hforall
      exact hforall
    | undefined => trivial
  . exact h
  . exact h

theorem isResolving_turn (env : TurnEnv) (m : MainState) :
    (m.turn env).Forall fun m' => m'.isResolving = m.isResolving := by
  unfold turn
  split_ifs
  . rfl
  . rfl
  . rfl
  . cases m.world.handleEvent env.event env.tid with
    | returned w => rfl
    | thrown e w => rfl
    | undefined => trivial
  . rfl
  . rfl

theorem forall_foldl_step {I : MainState → Prop} (hturn : ∀ m env, I m → (turn env m).Forall I)
    {m : Outcome MainState} (hm : m.Forall I) (envs : List TurnEnv) : (envs.foldl step m).Forall I := by
  apply Run.foldl_invariant
  . intro m env h
    cases m with
    | returned m => exact hturn m env h
    | thrown e m => exact h
    | undefined => trivial
  . exact hm

theorem not_isResolving_run {memory : Memory} {envs : List TurnEnv} (hm : run memory envs = .returned m) :
    m.isResolving = false := by
  have hforall : (run memory envs).Forall fun m => m.isResolving = false := by
    apply forall_foldl_step
    . intro m env h
      have hturn := isResolving_turn env m
      rw [h] at hturn
      exact hturn
    . rfl
  rw [hm] at hforall
  exact hforall

end MainState

def futexStop (tid : Pid) (uaddr : Addr) (op : UInt64) : TurnEnv where
  tid := tid
  status := 0x857f
  tidAlive := true
  event := {
    tidAlive := true
    regs := some ⟨sysFutex, uaddr, op⟩
    call := .bare
    rehash := id
    rehash_same := Tracker.Same.refl
    pass := {
      orders := ⟨default, default, default⟩
      group := ⟨false, fun _ => .error 2⟩
      resolve := ScanState.deadEnv } }

end DeadlockInterceptor
