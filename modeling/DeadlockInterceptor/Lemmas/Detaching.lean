import DeadlockInterceptor.Lemmas.TracingRoutines

/-!
This module contains which threads the monitor gets rid of. `PTRACE_DETACH` needs a thread that is stopped, so a
routine that sends no signal before it leaves the running threads traced.
-/

namespace DeadlockInterceptor

/--
Calls for the thread succeed if Linux permits them, and a blocking `waitpid` returns with a stop.
-/
structure Reliable (env : TraceEnv) (tid : Pid) : Prop where
  succeeds : ∀ k c, ∃ n, env.reply k tid c = .ok n
  waits : ∀ k, env.reply k tid (.waitpid false) ≠ .ok 0

/-- While it is ours and runs, the thread makes no system call and gets no signal. -/
def StaysRunning (env : TraceEnv) (tid : Pid) : Prop :=
  ∀ time t, t.tracer = .us → t.stopped = false → (env.moves time tid t).stopped = false

theorem reliable_still (tid : Pid) : Reliable .still tid := ⟨fun _ _ => ⟨1, rfl⟩, fun _ h => by cases h⟩

theorem staysRunning_still (tid : Pid) : StaysRunning .still tid := fun _ _ _ h => h

namespace Tracee

def Released (t : Tracee) : Prop := t.alive = true → t.tracer ≠ .us

def Caught (t : Tracee) : Prop := t.tracer = .us ∧ (t.alive = true → t.stopped = true)

theorem Moves.released {t t' : Tracee} (h : Moves t t') (ht : t.Released) : t'.Released := by
  intro halive htracer
  have hours := h.tracer.mp htracer
  exact ht (h.alive hours halive) hours

theorem Moves.caught {t t' : Tracee} (h : Moves t t') (ht : t.Caught) : t'.Caught :=
  ⟨h.tracer.mpr ht.1, fun halive => h.stopped ht.1 (ht.2 (h.alive ht.1 halive))⟩

theorem Released.effect {t : Tracee} (ht : t.Released) {c : TraceCall} (hpermits : t.permits c = true)
    (hc : c.IsPlain) (n : Nat) (takes : Bool) : (t.effect n takes c).Released := by
  have hours : t.alive = true → t.tracer = .us → False := ht
  cases c with
  | attach | waitpid _ | kill => cases hc
  | interrupt => cases hpermits
  | setOptions _ | syscall | cont | detach =>
    simp only [Tracee.permits, Bool.and_eq_true, decide_eq_true_eq] at hpermits
    exact absurd hpermits.1.2 (hours hpermits.1.1)

theorem Released.signaled {t : Tracee} (ht : t.Released) (takes : Bool) : (t.signaled takes).Released := by
  simpa [Released] using ht

theorem Caught.signaled {t : Tracee} (ht : t.Caught) (takes : Bool) : (t.signaled takes).Caught := by
  refine ⟨by simpa using ht.1, fun halive => ?_⟩
  rw [Tracee.signaled_alive] at halive
  rw [Tracee.signaled_stopped_of_us t takes halive ht.1, ht.2 halive, Bool.true_or]

theorem Caught.permits_detach {t : Tracee} (ht : t.Caught) (halive : t.alive = true) : t.permits .detach = true := by
  simp [Tracee.permits, halive, ht.1, ht.2 halive]

theorem released_of_not_alive {t : Tracee} (h : t.alive = false) : t.Released := by simp [Released, h]

end Tracee

namespace Tracing

variable {env : TraceEnv} {tid : Pid}

theorem stable_released : Stable env tid fun _ => Tracee.Released :=
  fun time t h => (env.moves_moves time tid t).released h

theorem stable_caught : Stable env tid fun _ => Tracee.Caught :=
  fun time t h => (env.moves_moves time tid t).caught h

theorem steady_released : Steady env tid fun _ => Tracee.Released := fun _ _ _ _ h => h.signaled _

theorem steady_caught : Steady env tid fun _ => Tracee.Caught := fun _ _ _ _ h => h.signaled _

theorem Called.refused (h : Reliable env tid) {A : Nat → Tracee → Prop} {c : TraceCall} {errno : Nat} {s : Tracing}
    (hs : Called env tid A c (.error errno) s) :
    A s.time (s.thread tid) ∧ (s.thread tid).permits c = false := by
  obtain ⟨hA, ⟨hpermits, -⟩ | ⟨k, hk⟩⟩ := hs
  . exact ⟨hA, hpermits⟩
  . obtain ⟨n, hn⟩ := h.succeeds k c
    rw [hn] at hk
    cases hk

theorem keeps_released : KeepsKill env (At tid fun _ => Tracee.Released) Set.univ where
  onPause := preserves_pause stable_released
  onCall tid' _ c hc := by
    by_cases hne : tid' = tid
    . subst hne
      exact preserves_call_of_effect stable_released c fun _ _ n _ ht hpermits => ht.effect hpermits hc n _
    . exact preserves_call_of_not_concerns stable_released (not_concerns_of_ne hne hc.ne_kill)
  onKill tid' _ := preserves_kill stable_released steady_released tid'

theorem keepsAll_released_of_ne : KeepsAll env (At tid fun _ => Tracee.Released) {tid' | tid' ≠ tid} :=
  keepsAll_of_ne stable_released steady_released

theorem keepsAll_caught_of_ne : KeepsAll env (At tid fun _ => Tracee.Caught) {tid' | tid' ≠ tid} :=
  keepsAll_of_ne stable_caught steady_caught

theorem ensures_detach_of_caught (h : Reliable env tid) :
    Ensures (At tid fun _ => Tracee.Caught) (call env tid .detach) fun _ => At tid fun _ => Tracee.Released := by
  refine (ensures_call stable_caught .detach).imp (fun _ hs => hs) fun r s hs => ?_
  cases r with
  | ok n =>
    obtain ⟨t, k, -, -, hthread, -⟩ := hs
    rw [At, hthread]
    intro _ hfalse
    cases hfalse
  | error errno =>
    obtain ⟨ht, hpermits⟩ := hs.refused h
    apply Tracee.released_of_not_alive
    by_contra halive
    rw [Bool.not_eq_false] at halive
    rw [ht.permits_detach halive] at hpermits
    cases hpermits

theorem ensures_succeeds_detach (h : Reliable env tid) :
    Ensures (At tid fun _ => Tracee.Caught) (succeeds env tid .detach) fun _ => At tid fun _ => Tracee.Released :=
  .bind (ensures_detach_of_caught h) fun _ => .pure fun _ hs => hs

section attach

theorem ensures_attach_of_released :
    Ensures (At tid fun _ => Tracee.Released) (succeeds env tid .attach) fun b =>
      At tid fun _ t => if b = true then t.Caught else t.Released := by
  refine .bind (ensures_call stable_released .attach) fun r => .pure fun s hs => ?_
  cases r with
  | ok n =>
    obtain ⟨t, k, -, -, hthread, -⟩ := hs
    rw [At, hthread]
    exact ⟨rfl, fun _ => rfl⟩
  | error errno => exact hs.1

theorem preserves_caught_waitpid (nohang : Bool) :
    Preserves (At tid fun _ => Tracee.Caught) (call env tid (.waitpid nohang)) := by
  refine preserves_call_of_effect stable_caught _ fun _ t n k ht _ => ?_
  simp only [Tracee.effect]
  split
  . exact ht
  . exact ⟨ht.1, fun _ => rfl⟩

end attach

/--
The function `f` releases a thread of ours that is stopped, and does not get hold of one again.
-/
structure Releases {α : Type} (env : TraceEnv) (tid : Pid) (f : Pid → StateM Tracing α) : Prop where
  releases : Ensures (At tid fun _ => Tracee.Caught) (f tid) fun _ => At tid fun _ => Tracee.Released
  released : ∀ tid', Preserves (At tid fun _ => Tracee.Released) (f tid')
  caught : ∀ tid', tid' ≠ tid → Preserves (At tid fun _ => Tracee.Caught) (f tid')

theorem Releases.discard {α : Type} {f : Pid → StateM Tracing α} (h : Releases env tid f) :
    Releases env tid fun tid' => do let _ ← f tid' where
  releases := .bind h.releases fun _ => .pure fun _ hs => hs
  released tid' := .bind (h.released tid') fun _ => .pure _
  caught tid' hne := .bind (h.caught tid' hne) fun _ => .pure _

theorem Releases.forM {f : Pid → StateM Tracing Unit} (h : Releases env tid f) {tids : List Pid} (htid : tid ∈ tids) :
    Ensures (At tid fun _ => Tracee.Caught) (tids.forM f) fun _ => At tid fun _ => Tracee.Released :=
  .forM_of_mem htid h.releases (fun tid' _ => h.caught tid') fun tid' _ => h.released tid'

theorem releases_detachThread (h : Reliable env tid) : Releases env tid (detachThread env) where
  releases := by
    refine .bind (ensures_threadExists stable_caught) fun b => .ite (fun _ => ?_) fun hb => ?_
    . refine .bind ((ensures_detach_of_caught h).imp (fun _ hs => hs.2) fun _ _ hs => hs) fun _ => ?_
      exact .pure fun _ hs => hs
    . exact .pure fun _ hs => Tracee.released_of_not_alive (hs.1 (Bool.not_eq_true _ ▸ hb))
  released _ := keeps_released.detachThread trivial
  caught _ hne := keepsAll_caught_of_ne.detachThread hne

theorem releases_detachWithSigcont (h : Reliable env tid) : Releases env tid (detachWithSigcont env) where
  releases := by
    refine .bind (ensures_threadExists stable_caught) fun b => .ite (fun hb => ?_) fun _ => ?_
    . refine .pure fun _ hs => Tracee.released_of_not_alive (hs.1 ?_)
      rwa [Bool.not_eq_true'] at hb
    . refine .bind ((ensures_detach_of_caught h).imp (fun _ hs => hs.2) fun _ _ hs => hs) fun r => ?_
      exact (keeps_released.countDetached trivial r).ensures
  released _ := keeps_released.detachWithSigcont trivial
  caught _ hne := keepsAll_caught_of_ne.detachWithSigcont hne

theorem releases_stopThread (h : Reliable env tid) : Releases env tid (stopThread env) where
  releases := by
    have hattempts : Ensures (At tid fun _ => Tracee.Caught) (stopAttempts env tid [0, 1, 2]) fun _ =>
        At tid fun _ => Tracee.Released := by
      refine .bind (Q := fun _ => At tid fun _ => Tracee.Released) ?_ fun _ => ?_
      . exact .bind (ensures_detach_of_caught h) fun r => (keeps_released.stopFallback trivial 0 r).ensures
      . exact .ite (fun _ => .pure fun _ hs => hs) fun _ => (keeps_released.stopAttempts trivial [1, 2]).ensures
    refine .bind hattempts fun _ => .ite (fun _ => ?_) fun _ => .pure fun _ hs => hs
    refine .bind (keeps_released.onCall tid trivial .cont trivial).ensures fun _ => ?_
    refine .bind (keeps_released.succeeds (c := .detach) trivial trivial).ensures fun _ => ?_
    refine .ite (fun _ => ?_) fun _ => .pure fun _ hs => hs
    exact .bind (keeps_released.onKill tid trivial).ensures fun _ => .pure fun _ hs => hs
  released _ := keeps_released.stopThread trivial
  caught _ hne := keepsAll_caught_of_ne.stopThread hne

theorem preserves_released_attachThenDetach (h : Reliable env tid) :
    Preserves (At tid fun _ => Tracee.Released) (attachThenDetach env tid) := by
  have hrest : ∀ detached : Bool, Preserves (At tid fun _ => Tracee.Released) (do
      if !detached then
        let _ ← call env tid .kill
      return detached) :=
    fun _ => .ite (.bind (keeps_released.onKill tid trivial) fun _ => .pure _) (.pure _)
  change Ensures _ _ fun _ => At tid fun _ => Tracee.Released
  refine .bind ensures_attach_of_released fun b => ?_
  cases b with
  | true =>
    refine .bind (preserves_caught_waitpid false).ensures fun _ => ?_
    exact .bind (ensures_succeeds_detach h) fun detached => (hrest detached).ensures
  | false => exact (hrest false).ensures

theorem preserves_released_nuclearDetach (h : Reliable env tid) (attempts : Nat) :
    Preserves (At tid fun _ => Tracee.Released) (nuclearDetach env tid attempts) := by
  induction attempts with
  | zero => exact .pure _
  | succ attempts ih =>
    refine .bind (.bind (keeps_released.succeeds trivial trivial) fun _ => .ite (.pure _) ?_) fun _ => .ite (.pure _) ih
    exact preserves_released_attachThenDetach h

theorem ensures_nuclearDetach_of_caught (h : Reliable env tid) (attempts : Nat) :
    Ensures (At tid fun _ => Tracee.Caught) (nuclearDetach env tid (attempts + 1)) fun _ =>
      At tid fun _ => Tracee.Released := by
  have hattempt : Ensures (At tid fun _ => Tracee.Caught) (nuclearAttempt env tid) fun _ =>
      At tid fun _ => Tracee.Released := by
    refine .bind (ensures_succeeds_detach h) fun _ => .ite (fun _ => .pure fun _ hs => hs) fun _ => ?_
    exact (preserves_released_attachThenDetach h).ensures
  refine .bind hattempt fun _ => .ite (fun _ => .pure fun _ hs => hs) fun _ => ?_
  exact (preserves_released_nuclearDetach h attempts).ensures

theorem releases_nuclearDetach (h : Reliable env tid) : Releases env tid fun tid' => nuclearDetach env tid' 3 where
  releases := ensures_nuclearDetach_of_caught h 2
  released tid' := by
    by_cases hne : tid' = tid
    . subst hne
      exact preserves_released_nuclearDetach h 3
    . exact keepsAll_released_of_ne.nuclearDetach hne 3
  caught _ hne := keepsAll_caught_of_ne.nuclearDetach hne 3

theorem preserves_interrupt {A : Nat → Tracee → Prop} (h : Stable env tid A) (tid' : Pid) :
    Preserves (At tid A) (interruptThread env tid') := by
  by_cases hne : tid' = tid
  . subst hne
    have hcall : Preserves (At tid' A) (call env tid' .interrupt) :=
      preserves_call_of_effect h .interrupt fun _ _ _ _ _ hpermits => by cases hpermits
    have hkeeps : Keeps env (At tid' A) ∅ := ⟨preserves_pause h, fun _ hfalse => hfalse.elim⟩
    exact .bind (hkeeps.threadExists tid') fun _ => .ite (.bind hcall fun _ => .pure _) (.pure _)
  . exact (keepsAttach_of_ne h).interruptThread hne

end Tracing

def Routine.detached : Routine → List Pid
  | .attachAllThreads _ => []
  | .resumeTid _ => []
  | .resolveDeadlockStrategy1 .forkFailed _ tids => tids
  | .resolveDeadlockStrategy1 .waitFailed _ tids => tids
  | .resolveDeadlockStrategy1 .finished _ _ => []
  | .stopTheWorld _ tids => tids
  | .resolveGroupDeadlock _ _ _ => []
  | .shutdownClean tids => tids

namespace Tracing

variable {env : TraceEnv} {tid : Pid}

theorem ensures_detachAll (h : Reliable env tid) {tids : List Pid} (htid : tid ∈ tids) :
    Ensures (At tid fun _ => Tracee.Caught) (detachAll env tids) fun _ => At tid fun _ => Tracee.Released := by
  have hreleases := releases_detachWithSigcont h
  induction tids with
  | nil => cases htid
  | cons tid' tids ih =>
    by_cases hne : tid' = tid
    . subst hne
      refine .bind hreleases.releases fun _ => .bind ?_ fun _ => .pure fun _ hs => hs
      exact (keeps_released.detachAll fun _ _ => trivial).ensures
    . have htid' : tid ∈ tids := (List.mem_cons.mp htid).resolve_left fun heq => hne heq.symm
      refine .bind (hreleases.caught tid' hne).ensures fun _ => .bind (ih htid') fun _ => .pure fun _ hs => hs

theorem ensures_released (h : Reliable env tid) {routine : Routine} (htid : tid ∈ routine.detached) :
    Ensures (At tid fun _ => Tracee.Caught) (routine.requests env) fun _ => At tid fun _ => Tracee.Released := by
  have hfailed : ∀ victimTid tids, tid ∈ tids → Ensures (At tid fun _ => Tracee.Caught)
      (do let _ ← detachAll env tids; let _ ← call env victimTid .kill; return false : StateM Tracing Bool)
      fun _ => At tid fun _ => Tracee.Released := by
    intro victimTid tids htids
    refine .bind (ensures_detachAll h htids) fun _ => ?_
    exact .bind (keeps_released.onKill victimTid trivial).ensures fun _ => .pure fun _ hs => hs
  cases routine with
  | attachAllThreads _ | resumeTid _ | resolveGroupDeadlock _ _ _ => cases htid
  | resolveDeadlockStrategy1 fate victimTid tids =>
    cases fate with
    | forkFailed => exact .bind (hfailed victimTid tids htid) fun _ => .pure fun _ hs => hs
    | waitFailed => exact .bind (hfailed victimTid tids htid) fun _ => .pure fun _ hs => hs
    | finished => cases htid
  | stopTheWorld targetPid tids =>
    refine .bind (.ite (fun hnil => ?_) fun _ => ?_) fun _ => .pure fun _ hs => hs
    . rw [Routine.detached, hnil] at htid
      cases htid
    . refine .bind ((releases_stopThread h).forM htid) fun _ => ?_
      exact .bind (keeps_released.onKill targetPid trivial).ensures fun _ => .pure fun _ hs => hs
  | shutdownClean tids =>
    refine .bind ?_ fun _ => (releases_detachThread h).forM htid
    exact (Preserves.forM fun tid' _ => preserves_interrupt stable_caught tid').ensures

section running

theorem ensures_detach_errno (h : Reliable env tid) :
    Ensures (fun _ => True) (call env tid .detach) fun r _ => ∀ errno, r = .error errno → errno = esrch := by
  have hstable : Stable env tid fun _ _ => True := fun _ _ _ => trivial
  refine (ensures_call hstable .detach).imp (fun _ hs => hs) fun r s hs => ?_
  rintro errno rfl
  obtain ⟨-, ⟨-, herrno⟩ | ⟨k, hk⟩⟩ := hs
  . exact herrno
  . obtain ⟨n, hn⟩ := h.succeeds k .detach
    rw [hn] at hk
    cases hk

variable {I : Tracing → Prop} {tids : Set Pid}

theorem Keeps.ensures_detach (h : Keeps env I tids) (htid : tid ∈ tids) (hreliable : Reliable env tid) :
    Ensures I (call env tid .detach) fun r s => (∀ errno, r = .error errno → errno = esrch) ∧ I s :=
  (ensures_detach_errno hreliable).and_preserves (h.onCall tid htid .detach trivial)

theorem Keeps.detachAll_of_reliable (h : Keeps env I tids) {l : List Pid}
    (hl : ∀ tid ∈ l, tid ∈ tids ∧ Reliable env tid) : Preserves I (detachAll env l) := by
  have hdetach : ∀ tid ∈ l, Preserves I (detachWithSigcont env tid) := by
    intro tid htid
    change Ensures I _ fun _ => I
    refine .bind (h.threadExists tid).ensures fun _ => .ite (fun _ => .pure fun _ hs => hs) fun _ => ?_
    refine .bind (h.ensures_detach (hl tid htid).1 (hl tid htid).2) fun r => .and_left fun herrno => ?_
    cases r with
    | ok n => exact .pure fun _ hs => hs
    | error errno => exact .ite (fun _ => .pure fun _ hs => hs) fun hother => absurd (.inl (herrno errno rfl)) hother
  clear hl
  induction l with
  | nil => exact .pure _
  | cons tid l ih =>
    rw [List.forall_mem_cons] at hdetach
    exact .bind hdetach.1 fun _ => .bind (ih hdetach.2) fun _ => .pure _

theorem Keeps.stopThread_of_reliable (h : Keeps env I tids) (htid : tid ∈ tids) (hreliable : Reliable env tid) :
    Preserves I (stopThread env tid) := by
  have hattempt : Ensures I (stopAttempt env tid 0) fun b s => b = true ∧ I s := by
    refine .bind (h.ensures_detach htid hreliable) fun r => .and_left fun herrno => ?_
    cases r with
    | ok n => exact .pure fun _ hs => ⟨rfl, hs⟩
    | error errno =>
      exact .ite (fun _ => .pure fun _ hs => ⟨rfl, hs⟩) fun hother => absurd (herrno errno rfl) hother
  have hattempts : Ensures I (stopAttempts env tid [0, 1, 2]) fun b s => b = true ∧ I s :=
    .bind_eq hattempt (.pure fun _ hs => ⟨rfl, hs⟩)
  change Ensures I _ fun _ => I
  exact .bind_eq hattempts (.pure fun _ hs => hs)

def Ours (syscallTracing exitKill : Bool) (_ : Nat) (t : Tracee) : Prop :=
  t.tracer = .us ∧ t.syscallTracing = syscallTracing ∧ t.exitKill = exitKill

def Running (syscallTracing exitKill : Bool) (time : Nat) (t : Tracee) : Prop :=
  Ours syscallTracing exitKill time t ∧ t.stopped = false

theorem stable_ours (syscallTracing exitKill : Bool) : Stable env tid (Ours syscallTracing exitKill) := by
  rintro time t ⟨htracer, htracing, hkill⟩
  have hmoves := env.moves_moves time tid t
  have htracing' := (hmoves.syscallTracing htracer).trans htracing
  exact ⟨hmoves.tracer.mpr htracer, htracing', (hmoves.exitKill htracer).trans hkill⟩

theorem steady_ours (syscallTracing exitKill : Bool) : Steady env tid (Ours syscallTracing exitKill) :=
  fun _ _ _ _ h => by simpa [Ours] using h

theorem stable_running (h : StaysRunning env tid) (syscallTracing exitKill : Bool) :
    Stable env tid (Running syscallTracing exitKill) :=
  fun time t ht => ⟨stable_ours syscallTracing exitKill time t ht.1, h time t ht.1.1 ht.2⟩

theorem Running.inert {syscallTracing exitKill : Bool} {time : Nat} {t : Tracee}
    (h : Running syscallTracing exitKill time t) : t.Inert := .inr (.inr ⟨h.1.1, h.2⟩)

theorem ensures_ours (hrunning : StaysRunning env tid) {routine : Routine}
    (hothers : routine.signals = true → ∀ tid' ∈ routine.tids, Reliable env tid') (htid : tid ∈ routine.detached)
    (syscallTracing exitKill : Bool) :
    Ensures (At tid (Running syscallTracing exitKill)) (routine.requests env) fun _ =>
      At tid (Ours syscallTracing exitKill) := by
  have hkeeps : Keeps env (At tid (Running syscallTracing exitKill)) Set.univ :=
    (keepsAttach_of_inert (stable_running hrunning syscallTracing exitKill) fun _ _ => Running.inert).toKeeps
  have hkill : ∀ tid', Preserves (At tid (Ours syscallTracing exitKill)) (call env tid' .kill) :=
    preserves_kill (stable_ours syscallTracing exitKill) (steady_ours syscallTracing exitKill)
  have hfailed : ∀ victimTid tids, (∀ tid' ∈ tids, Reliable env tid') →
      Ensures (At tid (Running syscallTracing exitKill))
        (do let _ ← detachAll env tids; let _ ← call env victimTid .kill; return false : StateM Tracing Bool)
        fun _ => At tid (Ours syscallTracing exitKill) := by
    intro victimTid tids htids
    refine .bind (hkeeps.detachAll_of_reliable fun tid' htid' => ⟨trivial, htids tid' htid'⟩).ensures fun _ => ?_
    exact .bind ((hkill victimTid).ensures.imp (fun _ hs => hs.1) fun _ _ hs => hs) fun _ => .pure fun _ hs => hs
  cases routine with
  | attachAllThreads _ | resumeTid _ | resolveGroupDeadlock _ _ _ => cases htid
  | resolveDeadlockStrategy1 fate victimTid tids =>
    have hreliable := List.forall_mem_cons.mp (hothers rfl)
    cases fate with
    | forkFailed => exact .bind (hfailed victimTid tids hreliable.2) fun _ => .pure fun _ hs => hs
    | waitFailed => exact .bind (hfailed victimTid tids hreliable.2) fun _ => .pure fun _ hs => hs
    | finished => cases htid
  | stopTheWorld targetPid tids =>
    have hreliable := List.forall_mem_cons.mp (hothers rfl)
    refine .bind (.ite (fun _ => .pure fun _ hs => hs.1) fun _ => ?_) fun _ => .pure fun _ hs => hs
    refine .bind (Preserves.forM fun tid' htid' => ?_).ensures fun _ => ?_
    . exact hkeeps.stopThread_of_reliable trivial (hreliable.2 tid' htid')
    . exact .bind ((hkill targetPid).ensures.imp (fun _ hs => hs.1) fun _ _ hs => hs) fun _ => .pure fun _ hs => hs
  | shutdownClean tids =>
    exact (hkeeps.shutdownClean fun _ _ => trivial).ensures.imp (fun _ hs => hs) fun _ _ hs => hs.1

end running

theorem released_or_ours (env : TraceEnv) (tid : Pid) (routine : Routine) (s : Tracing)
    (hreliable : Reliable env tid) (hothers : routine.signals = true → ∀ tid' ∈ routine.tids, Reliable env tid')
    (hrunning : StaysRunning env tid) (htid : tid ∈ routine.detached) (hours : (s.thread tid).tracer = .us) :
    ((s.thread tid).stopped = true ∧ (((routine.requests env).run s).2.thread tid).Released) ∨
      ((s.thread tid).stopped = false ∧
        Ours (s.thread tid).syscallTracing (s.thread tid).exitKill ((routine.requests env).run s).2.time
          (((routine.requests env).run s).2.thread tid)) := by
  cases hstopped : (s.thread tid).stopped with
  | true =>
    exact .inl ⟨rfl, ensures_released hreliable htid s ⟨hours, fun _ => hstopped⟩⟩
  | false =>
    have hours' := ensures_ours hrunning hothers htid (s.thread tid).syscallTracing (s.thread tid).exitKill s
      ⟨⟨hours, rfl, rfl⟩, hstopped⟩
    exact .inr ⟨rfl, hours'⟩

theorem killedAtExit_iff (env : TraceEnv) (tid : Pid) (routine : Routine) (s : Tracing)
    (hreliable : Reliable env tid) (hothers : routine.signals = true → ∀ tid' ∈ routine.tids, Reliable env tid')
    (hrunning : StaysRunning env tid) (htid : tid ∈ routine.detached) (hours : (s.thread tid).tracer = .us)
    (halive : (((routine.requests env).run s).2.thread tid).alive = true) :
    KilledAtExit tid ((routine.requests env).run s).2
      ↔
    (s.thread tid).stopped = false ∧ (s.thread tid).exitKill = true := by
  rcases released_or_ours env tid routine s hreliable hothers hrunning htid hours with ⟨hstopped, h⟩ | ⟨hstopped, h⟩
  . rw [hstopped]
    exact ⟨fun hkilled => absurd hkilled.2.1 (h halive), fun hfalse => by cases hfalse.1⟩
  . rw [hstopped, ← h.2.2]
    exact ⟨fun hkilled => ⟨rfl, hkilled.2.2⟩, fun hkill => ⟨halive, h.1, hkill.2⟩⟩

/--
A routine that sends no signal before it detaches threads gets rid of those that are stopped and of no others.
-/
theorem detached_iff_stopped (env : TraceEnv) (tid : Pid) (routine : Routine) (s : Tracing)
    (hreliable : Reliable env tid) (hothers : routine.signals = true → ∀ tid' ∈ routine.tids, Reliable env tid')
    (hrunning : StaysRunning env tid) (htid : tid ∈ routine.detached) (hours : (s.thread tid).tracer = .us)
    (halive : (((routine.requests env).run s).2.thread tid).alive = true) :
    (((routine.requests env).run s).2.thread tid).tracer ≠ .us ↔ (s.thread tid).stopped = true := by
  rcases released_or_ours env tid routine s hreliable hothers hrunning htid hours with ⟨hstopped, h⟩ | ⟨hstopped, h⟩
  . exact ⟨fun _ => hstopped, fun _ => h halive⟩
  . rw [hstopped]
    exact ⟨fun hreleased => absurd h.1 hreleased, fun hfalse => by cases hfalse⟩

theorem detached_iff_stopped_stopTheWorld :
    let s : Tracing := { thread := fun tid => ⟨true, .us, tid = 1, true, true⟩ }
    ((((Routine.stopTheWorld 2 [2, 1]).requests .still).run s).2.thread 1).tracer ≠ .us
      ↔
    (s.thread 1).stopped = true :=
  detached_iff_stopped .still 1 (.stopTheWorld 2 [2, 1]) _ (reliable_still 1) (fun _ tid' _ => reliable_still tid')
    (staysRunning_still 1) (by decide) rfl rfl

end Tracing

end DeadlockInterceptor
