import DeadlockInterceptor.Lemmas.Detaching

/-!
This module contains that the threads are watched again after `resolve_deadlock_strategy1`, also the ones it has
detached and the ones that are new, if the kernel is reliable. The signals it sends bring the threads that are still
ours to a stop, and the others can be attached to.
-/

namespace DeadlockInterceptor

def NotReused (env : TraceEnv) (tid : Pid) : Prop :=
  ∀ time t, t.alive = false → (env.moves time tid t).alive = false

def NotTaken (env : TraceEnv) (tid : Pid) : Prop :=
  ∀ time t, t.tracer ≠ .other → (env.moves time tid t).tracer ≠ .other

def Takes (env : TraceEnv) (tid : Pid) : Prop := ∀ k, env.takes k tid tid = true

theorem notReused_still (tid : Pid) : NotReused .still tid := fun _ _ h => h

theorem notTaken_still (tid : Pid) : NotTaken .still tid := fun _ _ h => h

theorem takes_still (tid : Pid) : Takes .still tid := fun _ => rfl

namespace Tracee

def Loose (t : Tracee) : Prop := t.alive = true → t.tracer = .nobody

def Ready (t : Tracee) : Prop := t.alive = true → t.tracer = .nobody ∨ (t.tracer = .us ∧ t.stopped = true)

def Watched (t : Tracee) : Prop := t.alive = true → t.tracer = .us ∧ t.syscallTracing = true

variable {t : Tracee}

theorem watched_of_not_alive (h : t.alive = false) : t.Watched := by simp [Watched, h]

theorem ready_of_not_alive (h : t.alive = false) : t.Ready := by simp [Ready, h]

theorem Ready.loose_or_caught (h : t.Ready) : t.Loose ∨ t.Caught := by
  cases halive : t.alive with
  | false => exact .inl fun htrue => absurd htrue (by simp [halive])
  | true => exact (h halive).imp (fun hnobody _ => hnobody) fun hcaught => ⟨hcaught.1, fun _ => hcaught.2⟩

theorem Loose.signaled (h : t.Loose) (takes : Bool) : (t.signaled takes).Loose := by simpa [Loose] using h

theorem Watched.signaled (h : t.Watched) (takes : Bool) : (t.signaled takes).Watched := by simpa [Watched] using h

theorem Ready.signaled (h : t.Ready) (takes : Bool) : (t.signaled takes).Ready := by
  intro halive
  rw [Tracee.signaled_alive] at halive
  rw [Tracee.signaled_tracer]
  refine (h halive).imp id fun ⟨hours, hstopped⟩ => ⟨hours, ?_⟩
  rw [Tracee.signaled_stopped_of_us t takes halive hours, hstopped, Bool.true_or]

end Tracee

namespace Tracing

variable {env : TraceEnv} {tid : Pid}

section assertions

theorem alive_of_moves (hdead : NotReused env tid) {time : Nat} {t : Tracee}
    (halive : (env.moves time tid t).alive = true) : t.alive = true := by
  by_contra hfalse
  rw [Bool.not_eq_true] at hfalse
  rw [hdead time t hfalse] at halive
  cases halive

theorem nobody_of_moves (htaken : NotTaken env tid) {time : Nat} {t : Tracee} (hnobody : t.tracer = .nobody) :
    (env.moves time tid t).tracer = .nobody := by
  have hother : (env.moves time tid t).tracer ≠ .other := htaken time t (by simp [hnobody])
  have hus : (env.moves time tid t).tracer ≠ .us := by
    rw [ne_eq, (env.moves_moves time tid t).tracer, hnobody]
    simp
  cases htracer : (env.moves time tid t).tracer with
  | nobody => rfl
  | us => exact absurd htracer hus
  | other => exact absurd htracer hother

theorem stable_dead (hdead : NotReused env tid) : Stable env tid fun _ t => t.alive = false :=
  fun time t h => hdead time t h

theorem stable_loose (hdead : NotReused env tid) (htaken : NotTaken env tid) : Stable env tid fun _ => Tracee.Loose :=
  fun _ _ h halive => nobody_of_moves htaken (h (alive_of_moves hdead halive))

theorem stable_ready (hdead : NotReused env tid) (htaken : NotTaken env tid) :
    Stable env tid fun _ => Tracee.Ready := by
  intro time t h halive
  have hmoves := env.moves_moves time tid t
  refine (h (alive_of_moves hdead halive)).imp (nobody_of_moves htaken) fun ⟨hours, hstopped⟩ => ?_
  exact ⟨hmoves.tracer.mpr hours, hmoves.stopped hours hstopped⟩

theorem stable_watched (hdead : NotReused env tid) : Stable env tid fun _ => Tracee.Watched := by
  intro time t h halive
  obtain ⟨hours, htracing⟩ := h (alive_of_moves hdead halive)
  have hmoves := env.moves_moves time tid t
  exact ⟨hmoves.tracer.mpr hours, (hmoves.syscallTracing hours).trans htracing⟩

theorem steady_loose : Steady env tid fun _ => Tracee.Loose := fun _ _ _ _ h => h.signaled _

theorem steady_ready : Steady env tid fun _ => Tracee.Ready := fun _ _ _ _ h => h.signaled _

theorem steady_watched : Steady env tid fun _ => Tracee.Watched := fun _ _ _ _ h => h.signaled _

theorem keepsAll_dead (hdead : NotReused env tid) : KeepsAll env (At tid fun _ t => t.alive = false) Set.univ :=
  keepsAll_of_inert (stable_dead hdead) steady_dead fun _ _ h => .inl h

theorem keepsAll_notOther (htaken : NotTaken env tid) :
    KeepsAll env (At tid fun _ t => t.tracer ≠ .other) Set.univ := by
  have hstable : Stable env tid fun _ t => t.tracer ≠ .other := htaken
  have hsteady : Steady env tid fun _ t => t.tracer ≠ .other := fun _ _ _ _ h => by simpa using h
  have hcall : ∀ tid' c, Preserves (At tid fun _ t => t.tracer ≠ .other) (call env tid' c) := by
    intro tid' c
    refine .bind (preserves_pause hstable) fun _ => preserves_perform c fun _ k n time t ht => ?_
    cases c with
    | attach | detach => simp [Tracee.effect]
    | setOptions _ | syscall | cont | interrupt => exact ht
    | waitpid _ =>
      simp only [Tracee.effect]
      split
      . exact ht
      . exact ht
    | kill => exact hsteady k tid' time t ht
  exact {
    onPause := preserves_pause hstable
    onCall := fun tid' _ c _ => hcall tid' c
    onKill := fun tid' _ => hcall tid' .kill
    onAttach := fun tid' _ => (hcall tid' .attach).ensures.imp (fun _ hs => hs)
      fun _ _ hs => ⟨fun _ nohang => hcall tid' (.waitpid nohang), hs⟩ }

end assertions

section calls

theorem ensures_attach_of_loose (hreliable : Reliable env tid) (hdead : NotReused env tid)
    (htaken : NotTaken env tid) :
    Ensures (At tid fun _ => Tracee.Loose) (call env tid .attach) fun r =>
      At tid fun _ t => if r.succeeded = true then t.Caught else t.alive = false := by
  refine (ensures_call (stable_loose hdead htaken) .attach).imp (fun _ hs => hs) fun r s hs => ?_
  cases r with
  | ok n =>
    obtain ⟨t, k, -, -, hthread, -⟩ := hs
    rw [At, hthread]
    exact ⟨rfl, fun _ => rfl⟩
  | error errno =>
    obtain ⟨ht, hpermits⟩ := hs.refused hreliable
    change (s.thread tid).alive = false
    by_contra halive
    rw [Bool.not_eq_false] at halive
    simp [Tracee.permits, halive, ht halive] at hpermits

theorem not_alive_of_refused {t : Tracee} (ht : t.Caught) {c : TraceCall} (hpermits : t.permits c = false)
    (hattach : c ≠ .attach) (hinterrupt : c ≠ .interrupt) : t.alive = false := by
  by_contra halive
  rw [Bool.not_eq_false] at halive
  cases c with
  | attach => exact hattach rfl
  | interrupt => exact hinterrupt rfl
  | setOptions _ | syscall | cont | detach | waitpid _ | kill =>
    simp [Tracee.permits, halive, ht.1, ht.2 halive] at hpermits

theorem ensures_syscall_of_caught (h : Reliable env tid) :
    Ensures (At tid fun _ => Tracee.Caught) (succeeds env tid .syscall) fun b =>
      At tid fun _ t => t.Watched ∧ (b = false → t.alive = false) := by
  refine .bind (ensures_call stable_caught .syscall) fun r => .pure fun s hs => ?_
  cases r with
  | ok n =>
    obtain ⟨t, k, ht, -, hthread, -⟩ := hs
    rw [At, hthread]
    exact ⟨fun _ => ⟨ht.1, rfl⟩, fun hfalse => by cases hfalse⟩
  | error errno =>
    obtain ⟨ht, hpermits⟩ := hs.refused h
    have hgone := not_alive_of_refused ht hpermits (by simp) (by simp)
    exact ⟨Tracee.watched_of_not_alive hgone, fun _ => hgone⟩

theorem ensures_setOptions_of_caught (h : Reliable env tid) (exitKill : Bool) :
    Ensures (At tid fun _ => Tracee.Caught) (call env tid (.setOptions exitKill)) fun r =>
      At tid fun _ t =>
        t.Caught ∧ (t.alive = true → t.exitKill = exitKill) ∧ (r.succeeded = false → t.alive = false) := by
  refine (ensures_call stable_caught (.setOptions exitKill)).imp (fun _ hs => hs) fun r s hs => ?_
  cases r with
  | ok n =>
    obtain ⟨t, k, ht, -, hthread, -⟩ := hs
    rw [At, hthread]
    exact ⟨ht, fun _ => rfl, fun hfalse => by cases hfalse⟩
  | error errno =>
    obtain ⟨ht, hpermits⟩ := hs.refused h
    have hgone := not_alive_of_refused ht hpermits (by simp) (by simp)
    exact ⟨ht, fun halive => absurd hgone (by simp [halive]), fun _ => hgone⟩

theorem ensures_waitpid_of_caught (h : Reliable env tid) (nohang : Bool) :
    Ensures (At tid fun _ => Tracee.Caught) (call env tid (.waitpid nohang)) fun r s =>
      (r = .ok 0 → nohang = true) ∧ (r.succeeded = false → (s.thread tid).alive = false) ∧
        At tid (fun _ => Tracee.Caught) s := by
  have hcall : Ensures (At tid fun _ => Tracee.Caught) (call env tid (.waitpid nohang)) fun r s =>
      Called env tid (fun _ => Tracee.Caught) (.waitpid nohang) r s ∧ At tid (fun _ => Tracee.Caught) s :=
    fun s hs => ⟨ensures_call stable_caught (.waitpid nohang) s hs, preserves_caught_waitpid nohang s hs⟩
  refine hcall.imp (fun _ hs => hs) fun r s hs => ⟨?_, ?_, hs.2⟩
  . rintro rfl
    obtain ⟨-, k, -, -, -, hk⟩ := hs.1
    by_contra hblocking
    rw [Bool.not_eq_true] at hblocking
    rw [hblocking] at hk
    exact h.waits k hk
  . cases r with
    | ok n => exact fun hfalse => by cases hfalse
    | error errno =>
      obtain ⟨ht, hpermits⟩ := hs.1.refused h
      exact fun _ => not_alive_of_refused ht hpermits (by simp) (by simp)

end calls

section reattach

open reattachAndResumeTracing

theorem ensures_waitForStop_of_caught (h : Reliable env tid) :
    Ensures (At tid fun _ => Tracee.Caught) (waitForStop env tid) fun b =>
      At tid fun _ t => t.Caught ∧ (b = false → t.alive = false) := by
  refine .bind (ensures_waitpid_of_caught h true) fun r => ?_
  match r with
  | .ok 0 =>
    refine .bind ((ensures_waitpid_of_caught h false).imp (fun _ hs => hs.2.2) fun _ _ hs => hs) fun r => ?_
    match r with
    | .ok 0 => exact .pure fun _ hs => by cases hs.1 rfl
    | .ok (_ + 1) => exact .pure fun _ hs => ⟨hs.2.2, fun hfalse => by cases hfalse⟩
    | .error _ => exact .pure fun _ hs => ⟨hs.2.2, fun _ => hs.2.1 rfl⟩
  | .ok (_ + 1) => exact .pure fun _ hs => ⟨hs.2.2, fun hfalse => by cases hfalse⟩
  | .error _ => exact .pure fun _ hs => ⟨hs.2.2, fun _ => hs.2.1 rfl⟩

variable (hreliable : Reliable env tid) (hdead : NotReused env tid) (htaken : NotTaken env tid)
include hreliable hdead htaken

theorem ensures_attempt_of_loose :
    Ensures (At tid fun _ => Tracee.Loose) (attempt env tid) fun result =>
      At tid fun _ t => t.Watched ∧ (result = none → t.alive = false) := by
  have hgone := keepsAll_dead hdead
  have hretry : Ensures (At tid fun _ t => t.alive = false) (retry env tid) fun result =>
      At tid fun _ t => t.Watched ∧ (result = none → t.alive = false) :=
    (hgone.retry trivial).ensures.imp (fun _ hs => hs) fun _ _ hs => ⟨Tracee.watched_of_not_alive hs, fun _ => hs⟩
  refine .bind (ensures_attach_of_loose hreliable hdead htaken) fun r => ?_
  cases r with
  | ok n =>
    refine .bind (ensures_waitForStop_of_caught hreliable) fun waited => .ite (fun _ => ?_) fun hfalse => ?_
    . have hset : Ensures (At tid fun _ => Tracee.Caught) (succeeds env tid (.setOptions false)) fun b =>
          At tid fun _ t => t.Caught ∧ (b = false → t.alive = false) :=
        .bind (ensures_setOptions_of_caught hreliable false) fun _ => .pure fun _ hs => ⟨hs.1, hs.2.2⟩
      refine .bind (hset.imp (fun _ hs => hs.1) fun _ _ hs => hs) fun set => .ite (fun _ => ?_) fun hfalse => ?_
      . refine .bind ((ensures_syscall_of_caught hreliable).imp (fun _ hs => hs.1) fun _ _ hs => hs) fun resumed => ?_
        refine .ite (fun _ => .pure fun _ hs => ⟨hs.1, fun hnone => by cases hnone⟩) fun hfalse => ?_
        exact hretry.imp (fun _ hs => hs.2 (Bool.not_eq_true _ ▸ hfalse)) fun _ _ hs => hs
      . exact hretry.imp (fun _ hs => hs.2 (Bool.not_eq_true _ ▸ hfalse)) fun _ _ hs => hs
    . exact hretry.imp (fun _ hs => hs.2 (Bool.not_eq_true _ ▸ hfalse)) fun _ _ hs => hs
  | error errno =>
    exact (hgone.attachFailed trivial errno).ensures.imp (fun _ hs => hs)
      fun _ _ hs => ⟨Tracee.watched_of_not_alive hs, fun _ => hs⟩

theorem ensures_reattach_of_loose (maxRetries : Nat) :
    Ensures (At tid fun _ => Tracee.Loose) (reattach env tid (maxRetries + 1)) fun _ =>
      At tid fun _ => Tracee.Watched := by
  have hgone := keepsAll_dead hdead
  have hattempts : Ensures (At tid fun _ => Tracee.Loose) (attempts env tid (maxRetries + 1)) fun result =>
      At tid fun _ t => t.Watched ∧ (result = none → t.alive = false) := by
    refine .bind (ensures_attempt_of_loose hreliable hdead htaken) fun result => ?_
    cases result with
    | some result => exact .pure fun _ hs => ⟨hs.1, fun hnone => by cases hnone⟩
    | none =>
      exact (hgone.attempts trivial maxRetries).ensures.imp (fun _ hs => hs.2 rfl)
        fun _ _ hs => ⟨Tracee.watched_of_not_alive hs, fun _ => hs⟩
  refine .bind hattempts fun result => ?_
  cases result with
  | some result => exact .pure fun _ hs => hs.1
  | none =>
    exact (hgone.lastResort trivial).ensures.imp (fun _ hs => hs.2 rfl) fun _ _ hs => Tracee.watched_of_not_alive hs

theorem ensures_reattachAndResumeTracing_of_loose :
    Ensures (At tid fun _ => Tracee.Loose) (reattachAndResumeTracing env tid 5) fun _ =>
      At tid fun _ => Tracee.Watched := by
  have hstable := stable_loose hdead htaken
  have hloose : Keeps env (At tid fun _ => Tracee.Loose) ∅ := ⟨preserves_pause hstable, fun _ h => h.elim⟩
  have hreattach := ensures_reattach_of_loose hreliable hdead htaken 4
  have htracer : Ensures (At tid fun _ => Tracee.Loose) (getTracer env tid) fun tracer s =>
      (tracer = none ∨ tracer = some .nobody) ∧ At tid (fun _ => Tracee.Loose) s := by
    refine .bind (ensures_observe hstable) fun t => .pure fun s hs => ⟨?_, hs.2⟩
    cases halive : t.alive with
    | true =>
      have hnobody : t.tracer = .nobody := by
        rw [hs.1] at halive ⊢
        exact hs.2 halive
      simp [hnobody]
    | false => simp
  refine .bind (ensures_threadExists hstable) fun b => .ite (fun hb => ?_) fun _ => ?_
  . refine .pure fun s hs => Tracee.watched_of_not_alive (hs.1 ?_)
    rwa [Bool.not_eq_true'] at hb
  . refine .bind (htracer.imp (fun _ hs => hs.2) fun _ _ hs => hs) fun tracer => .and_left fun htracer => ?_
    refine .bind (hloose.isThreadStopped tid).ensures fun _ => ?_
    rcases htracer with rfl | rfl
    . exact hreattach
    . refine .ite (fun _ => ?_) fun _ => hreattach
      exact .bind (preserves_kill hstable steady_loose tid).ensures fun _ => hreattach

omit htaken in
theorem ensures_reattachAndResumeTracing_of_caught :
    Ensures (At tid fun _ => Tracee.Caught) (reattachAndResumeTracing env tid 5) fun _ =>
      At tid fun _ => Tracee.Watched := by
  have hgone := keepsAll_dead hdead
  have hcaught : Keeps env (At tid fun _ => Tracee.Caught) ∅ := ⟨preserves_pause stable_caught, fun _ h => h.elim⟩
  have htracer : Ensures (At tid fun _ => Tracee.Caught) (getTracer env tid) fun tracer s =>
      (tracer = some .us ∧ (s.thread tid).Caught) ∨ (tracer = none ∧ (s.thread tid).alive = false) := by
    refine .bind (ensures_observe stable_caught) fun t => .pure fun s hs => ?_
    rw [← hs.1]
    have hcaught : t.Caught := hs.1 ▸ hs.2
    cases halive : t.alive with
    | true => exact .inl ⟨by rw [hcaught.1]; rfl, hcaught⟩
    | false => exact .inr ⟨rfl, rfl⟩
  refine .bind (ensures_threadExists stable_caught) fun b => .ite (fun hb => ?_) fun _ => ?_
  . refine .pure fun s hs => Tracee.watched_of_not_alive (hs.1 ?_)
    rwa [Bool.not_eq_true'] at hb
  . refine .bind (htracer.imp (fun _ hs => hs.2) fun _ _ hs => hs) fun tracer => ?_
    match tracer with
    | some .us =>
      have hrest : Preserves (At tid fun _ t => t.alive = false)
          (do
            if ← succeeds env tid .cont then
              return true
            else
              let _ ← call env tid .detach
              reattach env tid 5) := by
        refine .bind (hgone.succeeds trivial trivial) fun _ => .ite (.pure _) ?_
        exact .bind (hgone.onCall tid trivial .detach trivial) fun _ => hgone.reattach trivial 5
      refine .bind ((hcaught.isThreadStopped tid).ensures.imp (fun s hs => ?_) fun _ _ hs => hs) fun _ => ?_
      . exact hs.elim And.right fun hfalse => by cases hfalse.1
      . refine .bind (ensures_syscall_of_caught hreliable) fun b => .ite (fun _ => .pure fun _ hs => hs.1) fun hb => ?_
        exact hrest.ensures.imp (fun _ hs => hs.2 (Bool.not_eq_true _ ▸ hb))
          fun _ _ hs => Tracee.watched_of_not_alive hs
    | some .other => exact fun s hs => hs.elim (fun hfalse => by cases hfalse.1) fun hfalse => by cases hfalse.1
    | some .nobody => exact fun s hs => hs.elim (fun hfalse => by cases hfalse.1) fun hfalse => by cases hfalse.1
    | none =>
      refine .bind ((hgone.isThreadStopped tid).ensures.imp (fun s hs => ?_) fun _ _ hs => hs) fun _ => ?_
      . exact hs.elim (fun hfalse => by cases hfalse.1) And.right
      . exact (hgone.reattach trivial 5).ensures.imp (fun _ hs => hs) fun _ _ hs => Tracee.watched_of_not_alive hs

theorem ensures_reattachAndResumeTracing_of_ready :
    Ensures (At tid fun _ => Tracee.Ready) (reattachAndResumeTracing env tid 5) fun _ =>
      At tid fun _ => Tracee.Watched := by
  intro s hs
  have hready : (s.thread tid).Ready := hs
  rcases hready.loose_or_caught with hloose | hcaught
  . exact ensures_reattachAndResumeTracing_of_loose hreliable hdead htaken s hloose
  . exact ensures_reattachAndResumeTracing_of_caught hreliable hdead s hcaught

theorem ensures_reattachOther {victimTid : Pid} (hne : tid ≠ victimTid) :
    Ensures (At tid fun _ => Tracee.Ready) (reattachOther env victimTid tid)
      fun _ => At tid fun _ => Tracee.Watched := by
  refine .bind (ensures_threadExists (stable_ready hdead htaken)) fun b => .ite (fun _ => .ite (fun _ => ?_)
    fun hfalse => absurd hne hfalse) fun hb => .pure fun s hs => ?_
  . refine .bind ((ensures_reattachAndResumeTracing_of_ready hreliable hdead htaken).imp
      (fun _ hs => hs.2) fun _ _ hs => hs) fun _ => .pure fun _ hs => hs
  . exact Tracee.watched_of_not_alive (hs.1 (Bool.not_eq_true _ ▸ hb))

theorem ensures_reattachVictim :
    Ensures (At tid fun _ => Tracee.Ready) (reattachVictim env tid) fun _ => At tid fun _ => Tracee.Watched := by
  refine .bind (ensures_threadExists (stable_ready hdead htaken)) fun b => .ite (fun _ => ?_) fun hb =>
    .pure fun s hs => Tracee.watched_of_not_alive (hs.1 (Bool.not_eq_true _ ▸ hb))
  refine .bind ((ensures_reattachAndResumeTracing_of_ready hreliable hdead htaken).imp
    (fun _ hs => hs.2) fun _ _ hs => hs) fun _ => .ite (fun _ => ?_) fun _ => .pure fun _ hs => hs
  exact .bind (preserves_kill (stable_watched hdead) steady_watched tid).ensures fun _ => .pure fun _ hs => hs

end reattach

section strategy1

variable (hdead : NotReused env tid) (htaken : NotTaken env tid)
include htaken

section ready

include hdead

theorem keepsKill_ready : KeepsKill env (At tid fun _ => Tracee.Ready) {tid' | tid' ≠ tid} :=
  (keepsAll_of_ne (stable_ready hdead htaken) steady_ready).toKeepsKill

theorem preserves_ready_resumeThread (tid' : Pid) :
    Preserves (At tid fun _ => Tracee.Ready) (resumeThread env tid') := by
  refine .bind ((keepsKill_ready hdead htaken).threadExists tid') fun _ => .ite ?_ (.pure _)
  exact .bind (preserves_kill (stable_ready hdead htaken) steady_ready tid') fun _ => .pure _

end ready

variable (hreliable : Reliable env tid) (htakes : Takes env tid)
include hreliable htakes

theorem ensures_ready_resumeThread :
    Ensures (At tid fun _ t => t.tracer ≠ .other) (resumeThread env tid) fun _ => At tid fun _ => Tracee.Ready := by
  have hkill : Ensures (At tid fun _ t => t.tracer ≠ .other) (call env tid .kill) fun _ =>
      At tid fun _ => Tracee.Ready := by
    refine (ensures_call (A := fun _ t => t.tracer ≠ .other) htaken .kill).imp (fun _ hs => hs) fun r s hs => ?_
    cases r with
    | ok n =>
      obtain ⟨t, k, hother, halive, hthread, -⟩ := hs
      rw [At, hthread]
      intro _
      rw [Tracee.effect, Tracee.signaled_tracer]
      cases htracer : t.tracer with
      | nobody => exact .inl rfl
      | us =>
        refine .inr ⟨rfl, ?_⟩
        rw [Tracee.signaled_stopped_of_us t _ halive htracer, htakes k, Bool.or_true]
      | other => exact absurd htracer hother
    | error errno =>
      obtain ⟨-, hpermits⟩ := hs.refused hreliable
      exact Tracee.ready_of_not_alive hpermits
  refine .bind (ensures_threadExists (A := fun _ t => t.tracer ≠ .other) htaken) fun b => .ite (fun _ => ?_)
    fun hb => .pure fun s hs => Tracee.ready_of_not_alive (hs.1 (Bool.not_eq_true _ ▸ hb))
  exact .bind (hkill.imp (fun _ hs => hs.2) fun _ _ hs => hs) fun _ => .pure fun _ hs => hs

include hdead

theorem ensures_ready {victimTid : Pid} {tids : List Pid} (htid : tid ∈ victimTid :: tids) :
    Ensures (At tid fun _ t => t.tracer ≠ .other)
      (do tids.forM (resumeThread env); resumeThread env victimTid) fun _ => At tid fun _ => Tracee.Ready := by
  have hready := ensures_ready_resumeThread htaken hreliable htakes
  have hkeeps := preserves_ready_resumeThread hdead htaken
  have hother := keepsAll_notOther htaken
  by_cases hmem : tid ∈ tids
  . refine .bind (.forM_of_mem hmem hready (fun tid' _ _ => hother.resumeThread trivial)
      fun tid' _ => hkeeps tid') fun _ => (hkeeps victimTid).ensures
  . obtain rfl := (List.mem_cons.mp htid).resolve_right hmem
    exact .bind (Preserves.forM fun tid' _ => hother.resumeThread trivial).ensures fun _ => hready

theorem ensures_watched_of_ready {victimTid : Pid} {tids : List Pid} (hnodup : tids.Nodup)
    (htid : tid ∈ victimTid :: tids) :
    Ensures (At tid fun _ => Tracee.Ready)
      (do tids.forM (reattachOther env victimTid); reattachVictim env victimTid) fun _ =>
        At tid fun _ => Tracee.Watched := by
  have hready := keepsAll_of_ne (stable_ready hdead htaken) steady_ready
  have hwatched : KeepsAll env (At tid fun _ => Tracee.Watched) {tid' | tid' ≠ tid} :=
    keepsAll_of_ne (stable_watched hdead) steady_watched
  by_cases hvictim : tid = victimTid
  . subst hvictim
    refine .bind (Preserves.forM fun tid' _ => ?_).ensures fun _ => ensures_reattachVictim hreliable hdead htaken
    by_cases hne : tid' = tid
    . subst hne
      change Ensures _ _ fun _ => At tid' fun _ => Tracee.Ready
      refine .bind (hready.threadExists tid').ensures fun _ => .ite (fun _ => ?_) fun _ => .pure fun _ hs => hs
      exact .ite (fun hfalse => absurd rfl hfalse) fun _ => .pure fun _ hs => hs
    . exact hready.reattachOther hne tid
  . have hmem : tid ∈ tids := (List.mem_cons.mp htid).resolve_left hvictim
    refine .bind (.forM_of_mem_of_nodup hnodup hmem (ensures_reattachOther hreliable hdead htaken hvictim)
      (fun tid' _ hne => hready.reattachOther hne victimTid)
      fun tid' _ hne => hwatched.reattachOther hne victimTid) fun _ => ?_
    exact (hwatched.reattachVictim (Ne.symm hvictim)).ensures

theorem ensures_watched {victimTid : Pid} {tids : List Pid} (hnodup : tids.Nodup) (htid : tid ∈ victimTid :: tids) :
    Ensures (At tid fun _ t => t.tracer ≠ .other) (resolveDeadlockStrategy1 env .finished victimTid tids) fun _ =>
      At tid fun _ => Tracee.Watched := by
  have hother := keepsAll_notOther htaken
  have hready := ensures_ready hdead htaken hreliable htakes htid
  have hwatched := ensures_watched_of_ready hdead htaken hreliable htakes hnodup htid
  refine .bind (hother.detachAll fun _ _ => trivial).ensures fun _ => ?_
  refine .bind (hother.onKill victimTid trivial).ensures fun _ => ?_
  refine .bind (Preserves.forM fun tid' _ => hother.cleanupStuckThread trivial).ensures fun _ => ?_
  refine .bind_bind hready fun _ => ?_
  exact .bind_bind hwatched fun _ => .pure fun _ hs => hs

end strategy1

/--
Strategy 1 keeps the threads watched: whatever the others do in the meantime, after it has returned true the victim
and every listed thread is traced and was resumed with `PTRACE_SYSCALL` last, also one that was not traced before.
-/
theorem watched_after_resolution (env : TraceEnv) (tid victimTid : Pid) (tids : List Pid) (s : Tracing)
    (hreliable : Reliable env tid) (hdead : NotReused env tid) (htaken : NotTaken env tid) (htakes : Takes env tid)
    (hnodup : tids.Nodup) (htid : tid ∈ victimTid :: tids) (hother : (s.thread tid).tracer ≠ .other)
    (halive : (((resolveDeadlockStrategy1 env .finished victimTid tids).run s).2.thread tid).alive = true) :
    (((resolveDeadlockStrategy1 env .finished victimTid tids).run s).2.thread tid).tracer = .us ∧
      (((resolveDeadlockStrategy1 env .finished victimTid tids).run s).2.thread tid).syscallTracing = true :=
  ensures_watched hdead htaken hreliable htakes hnodup htid s hother halive

theorem watched_after_resolution_running :
    let s : Tracing := { thread := fun tid => ⟨true, .us, tid = 1, true, true⟩ }
    let s' := ((resolveDeadlockStrategy1 .still .finished 1 [1, 2]).run s).2
    (s'.thread 2).tracer = .us ∧ (s'.thread 2).syscallTracing = true := by
  have halive : ∀ s : Tracing, (s.thread 2).alive = true →
      (((resolveDeadlockStrategy1 .still .finished 1 [1, 2]).run s).2.thread 2).alive = true :=
    (keepsAll_alive fun _ _ h => h).resolveDeadlockStrategy1 .finished trivial fun _ _ => trivial
  exact watched_after_resolution .still 2 1 [1, 2] _ (reliable_still 2) (notReused_still 2) (notTaken_still 2)
    (takes_still 2) (by decide) (by decide) (by decide) (halive _ rfl)

end Tracing

end DeadlockInterceptor
