import DeadlockInterceptor.Lemmas.Tracing

/-!
This module contains what all of the routines of the monitor keep: the assertions about threads they are not given, and
about threads that Linux lets them do nothing with. `SIGCONT` is for a whole process and stops a thread that is traced,
so most of the routines keep only the assertions that bear this.
-/

namespace DeadlockInterceptor

namespace Tracing

variable {env : TraceEnv} {I : Tracing → Prop} {tids : Set Pid} {tid : Pid}

namespace Keeps

protected theorem getTracer (h : Keeps env I tids) (tid : Pid) : Preserves I (getTracer env tid) :=
  .bind (h.observe tid) fun _ => .pure _

protected theorem isThreadStopped (h : Keeps env I tids) (tid : Pid) : Preserves I (isThreadStopped env tid) :=
  .bind (h.observe tid) fun _ => .pure _

protected theorem retry (h : Keeps env I tids) (htid : tid ∈ tids) :
    Preserves I (reattachAndResumeTracing.retry env tid) :=
  .bind (h.onCall tid htid .detach trivial) fun _ => .pure _

protected theorem syscall_or_retry (h : Keeps env I tids) (htid : tid ∈ tids) :
    Preserves I
      (do if ← succeeds env tid .syscall then return some true else reattachAndResumeTracing.retry env tid) :=
  .bind (h.succeeds htid trivial) fun _ => .ite (.pure _) (h.retry htid)

protected theorem stillTraced (h : Keeps env I tids) (opens : Pid → Bool) (l : List Pid) :
    Preserves I (stillTraced env opens l) := by
  induction l with
  | nil => exact .pure _
  | cons tid l ih => exact .bind (h.observe tid) fun _ => .bind ih fun _ => .pure _

end Keeps

namespace KeepsKill

section reattach

open reattachAndResumeTracing

protected theorem attachFailed (h : KeepsKill env I tids) (htid : tid ∈ tids) (errno : Nat) :
    Preserves I (attachFailed env tid errno) := by
  refine .ite ?_ (.ite (.pure _) (.pure _))
  have hresumed : ∀ resumed : Bool, Preserves I (do
      if resumed then
        return some true
      else if ← succeeds env tid .kill then
        if ← succeeds env tid .syscall then return some true else retry env tid
      else
        retry env tid) := by
    intro resumed
    refine .ite (.pure _) (.bind (h.succeeds_kill htid) fun _ => ?_)
    exact .ite (h.syscall_or_retry htid) (h.retry htid)
  refine .bind (h.getTracer tid) fun _ => .ite ?_ ?_
  . exact .bind (h.succeeds htid trivial) hresumed
  . exact .bind (.pure _) hresumed

protected theorem lastResort (h : KeepsKill env I tids) (htid : tid ∈ tids) : Preserves I (lastResort env tid) := by
  refine .bind (h.succeeds htid trivial) fun _ => .ite (.pure _) ?_
  refine .bind (h.succeeds_kill htid) fun _ => .ite (.pure _) ?_
  refine .bind (h.succeeds htid trivial) fun _ => .ite ?_ (.pure _)
  exact .bind (h.onKill tid htid) fun _ => .pure _

end reattach

protected theorem countDetached (h : KeepsKill env I tids) (htid : tid ∈ tids) (r : Reply) :
    Preserves I (countDetached env tid r) := by
  cases r with
  | ok n => exact .pure _
  | error errno =>
    refine .ite (.pure _) (.bind (h.onKill tid htid) fun _ => ?_)
    refine .bind (h.onCall tid htid .detach trivial) fun _ => ?_
    exact .bind (h.onKill tid htid) fun _ => .pure _

protected theorem detachWithSigcont (h : KeepsKill env I tids) (htid : tid ∈ tids) :
    Preserves I (detachWithSigcont env tid) := by
  refine .bind (h.threadExists tid) fun _ => .ite (.pure _) ?_
  exact .bind (h.onCall tid htid .detach trivial) fun r => h.countDetached htid r

protected theorem detachAll (h : KeepsKill env I tids) {l : List Pid} (hl : ∀ tid ∈ l, tid ∈ tids) :
    Preserves I (detachAll env l) := by
  induction l with
  | nil => exact .pure _
  | cons tid l ih =>
    rw [List.forall_mem_cons] at hl
    exact .bind (h.detachWithSigcont hl.1) fun _ => .bind (ih hl.2) fun _ => .pure _

protected theorem resumeThread (h : KeepsKill env I tids) (htid : tid ∈ tids) : Preserves I (resumeThread env tid) := by
  refine .bind (h.threadExists tid) fun _ => .ite ?_ (.pure _)
  exact .bind (h.onKill tid htid) fun _ => .pure _

protected theorem stopFallback (h : KeepsKill env I tids) (htid : tid ∈ tids) (attempt : Nat) (r : Reply) :
    Preserves I (stopFallback env tid attempt r) := by
  cases r with
  | ok n => exact .pure _
  | error errno =>
    refine .ite (.pure _) (.ite (.pure _) (.ite ?_ (.pure _)))
    exact .bind (h.onCall tid htid .cont trivial) fun _ => .pure _

protected theorem stopAttempt (h : KeepsKill env I tids) (htid : tid ∈ tids) (attempt : Nat) :
    Preserves I (stopAttempt env tid attempt) :=
  .bind (h.onCall tid htid .detach trivial) fun r => h.stopFallback htid attempt r

protected theorem stopAttempts (h : KeepsKill env I tids) (htid : tid ∈ tids) (l : List Nat) :
    Preserves I (stopAttempts env tid l) := by
  induction l with
  | nil => exact .pure _
  | cons attempt rest ih => exact .bind (h.stopAttempt htid attempt) fun _ => .ite (.pure _) ih

protected theorem stopThread (h : KeepsKill env I tids) (htid : tid ∈ tids) : Preserves I (stopThread env tid) := by
  refine .bind (h.stopAttempts htid _) fun _ => .ite ?_ (.pure _)
  refine .bind (h.onCall tid htid .cont trivial) fun _ => ?_
  refine .bind (h.succeeds htid trivial) fun _ => .ite ?_ (.pure _)
  exact .bind (h.onKill tid htid) fun _ => .pure _

protected theorem stopTheWorld (h : KeepsKill env I tids) {targetPid : Pid} {l : List Pid}
    (htarget : Preserves I (call env targetPid .kill)) (hl : ∀ tid ∈ l, tid ∈ tids) :
    Preserves I (stopTheWorld env targetPid l) := by
  refine .ite (.pure _) (.bind (.forM fun tid htid => h.stopThread (hl tid htid)) fun _ => ?_)
  exact .bind htarget fun _ => .pure _

protected theorem wakeUp (h : KeepsKill env I tids) {targetPid : Pid} {l : List Pid}
    (htarget : Preserves I (call env targetPid .kill)) (hl : ∀ tid ∈ l, tid ∈ tids) (rounds : Nat) :
    Preserves I (wakeUp env targetPid l rounds) := by
  induction rounds with
  | zero => exact .pure _
  | succ rounds ih =>
    refine .bind htarget fun _ => .bind (.forM fun tid htid => ?_) fun _ => ih
    exact .bind (h.onKill tid (hl tid htid)) fun _ => .pure _

end KeepsKill

namespace KeepsAll

section reattach

open reattachAndResumeTracing

protected theorem waitForStop (hwait : ∀ nohang, Preserves I (call env tid (.waitpid nohang))) :
    Preserves I (waitForStop env tid) := by
  refine .bind (hwait true) fun r => ?_
  match r with
  | .ok 0 =>
    refine .bind (hwait false) fun r => ?_
    match r with
    | .ok 0 => exact .pure _
    | .ok (_ + 1) => exact .pure _
    | .error _ => exact .pure _
  | .ok (_ + 1) => exact .pure _
  | .error _ => exact .pure _

protected theorem attempt (h : KeepsAll env I tids) (htid : tid ∈ tids) : Preserves I (attempt env tid) := by
  have hretry := h.retry htid
  change Ensures I _ fun _ => I
  refine .bind (h.onAttach tid htid) fun r => .and_left fun hwait => ?_
  cases r with
  | ok n =>
    refine Preserves.bind (KeepsAll.waitForStop (hwait rfl)) fun _ => .ite ?_ hretry
    exact .bind (h.succeeds htid trivial) fun _ => .ite (h.syscall_or_retry htid) hretry
  | error errno => exact (h.attachFailed htid errno).ensures

protected theorem attempts (h : KeepsAll env I tids) (htid : tid ∈ tids) (maxRetries : Nat) :
    Preserves I (attempts env tid maxRetries) := by
  induction maxRetries with
  | zero => exact .pure _
  | succ maxRetries ih =>
    refine .bind (h.attempt htid) fun result => ?_
    cases result with
    | some result => exact .pure _
    | none => exact ih

protected theorem reattach (h : KeepsAll env I tids) (htid : tid ∈ tids) (maxRetries : Nat) :
    Preserves I (reattach env tid maxRetries) := by
  refine .bind (h.attempts htid maxRetries) fun result => ?_
  cases result with
  | some result => exact .pure _
  | none => exact h.lastResort htid

protected theorem reattachAndResumeTracing (h : KeepsAll env I tids) (htid : tid ∈ tids) (maxRetries : Nat) :
    Preserves I (reattachAndResumeTracing env tid maxRetries) := by
  have hreattach := h.reattach htid maxRetries
  have hkill : Preserves I (do let _ ← call env tid .kill; reattach env tid maxRetries) :=
    .bind (h.onKill tid htid) fun _ => hreattach
  refine .bind (h.threadExists tid) fun _ => .ite (.pure _) ?_
  refine .bind (h.getTracer tid) fun tracer => .bind (h.isThreadStopped tid) fun _ => ?_
  match tracer with
  | some .us =>
    refine .bind (h.succeeds htid trivial) fun _ => .ite (.pure _) ?_
    refine .bind (h.succeeds htid trivial) fun _ => .ite (.pure _) ?_
    exact .bind (h.onCall tid htid .detach trivial) fun _ => hreattach
  | some .other => exact .bind (h.succeeds htid trivial) fun _ => .ite hreattach hkill
  | some .nobody => exact .ite hkill hreattach
  | none => exact hreattach

end reattach

protected theorem continueTraced (h : KeepsAll env I tids) (htid : tid ∈ tids) :
    Preserves I (continueTraced env tid) := by
  refine .bind (h.succeeds htid trivial) fun _ => .ite ?_ (.pure _)
  refine .bind (h.succeeds htid trivial) fun _ => .ite ?_ (.pure _)
  refine .bind (h.succeeds htid trivial) fun _ => .ite ?_ (.pure _)
  refine h.attach_ite htid (fun hwait => .bind (hwait false) fun _ => ?_) (.pure _)
  refine .bind (h.succeeds htid trivial) fun _ => .ite ?_ (.pure _)
  exact .bind (h.onCall tid htid .syscall trivial) fun _ => .pure _

protected theorem cleanupTraced (h : KeepsAll env I tids) (htid : tid ∈ tids) (tracer : Tracer) :
    Preserves I (cleanupTraced env tid tracer) := by
  cases tracer with
  | nobody => exact .pure _
  | other =>
    refine .bind (h.succeeds htid trivial) fun _ => .ite ?_ (.pure _)
    refine .bind (h.onKill tid htid) fun _ => ?_
    exact .bind (h.onCall tid htid .detach trivial) fun _ => .pure _
  | us => exact h.continueTraced htid

protected theorem cleanupStuckThread (h : KeepsAll env I tids) (htid : tid ∈ tids) :
    Preserves I (cleanupStuckThread env tid) := by
  refine .bind (h.threadExists tid) fun _ => .ite ?_ (.pure _)
  refine .bind (h.observe tid) fun status => .ite ?_ (.pure _)
  have hrest := h.cleanupTraced htid status.tracer
  exact .ite (.bind (h.onKill tid htid) fun _ => hrest) hrest

protected theorem reattachOther (h : KeepsAll env I tids) (htid : tid ∈ tids) (victimTid : Pid) :
    Preserves I (reattachOther env victimTid tid) := by
  refine .bind (h.threadExists tid) fun _ => .ite (.ite ?_ (.pure _)) (.pure _)
  exact .bind (h.reattachAndResumeTracing htid 5) fun _ => .pure _

protected theorem reattachVictim (h : KeepsAll env I tids) (htid : tid ∈ tids) :
    Preserves I (reattachVictim env tid) := by
  refine .bind (h.threadExists tid) fun _ => .ite ?_ (.pure _)
  refine .bind (h.reattachAndResumeTracing htid 5) fun _ => .ite ?_ (.pure _)
  exact .bind (h.onKill tid htid) fun _ => .pure _

protected theorem resolveDeadlockStrategy1 (h : KeepsAll env I tids) (fate : ShadowFate) {victimTid : Pid}
    {l : List Pid} (hvictim : victimTid ∈ tids) (hl : ∀ tid ∈ l, tid ∈ tids) :
    Preserves I (resolveDeadlockStrategy1 env fate victimTid l) := by
  refine .bind (h.detachAll hl) fun _ => .bind (h.onKill victimTid hvictim) fun _ => ?_
  cases fate with
  | forkFailed => exact .pure _
  | waitFailed => exact .pure _
  | finished =>
    refine .bind (.forM fun tid htid => h.cleanupStuckThread (hl tid htid)) fun _ => ?_
    refine .bind (.forM fun tid htid => h.resumeThread (hl tid htid)) fun _ => ?_
    refine .bind (h.resumeThread hvictim) fun _ => ?_
    refine .bind (.forM fun tid htid => h.reattachOther (hl tid htid) victimTid) fun _ => ?_
    exact .bind (h.reattachVictim hvictim) fun _ => .pure _

protected theorem attachThenDetach (h : KeepsAll env I tids) (htid : tid ∈ tids) :
    Preserves I (attachThenDetach env tid) := by
  have hrest : ∀ detached : Bool, Preserves I (do
      if !detached then
        let _ ← call env tid .kill
      return detached) :=
    fun _ => .ite (.bind (h.onKill tid htid) fun _ => .pure _) (.pure _)
  refine h.attach_ite htid (fun hwait => .bind (hwait false) fun _ => ?_) (hrest false)
  exact .bind (h.succeeds htid trivial) hrest

protected theorem nuclearAttempt (h : KeepsAll env I tids) (htid : tid ∈ tids) :
    Preserves I (nuclearAttempt env tid) :=
  .bind (h.succeeds htid trivial) fun _ => .ite (.pure _) (h.attachThenDetach htid)

protected theorem nuclearDetach (h : KeepsAll env I tids) (htid : tid ∈ tids) (attempts : Nat) :
    Preserves I (nuclearDetach env tid attempts) := by
  induction attempts with
  | zero => exact .pure _
  | succ attempts ih => exact .bind (h.nuclearAttempt htid) fun _ => .ite (.pure _) ih

protected theorem resolveGroupDeadlock (h : KeepsAll env I tids) {targetPid : Pid} (opens : Pid → Bool) {l : List Pid}
    (htarget : Preserves I (call env targetPid .kill)) (hl : ∀ tid ∈ l, tid ∈ tids) :
    Preserves I (resolveGroupDeadlock env targetPid opens l) := by
  refine .bind (.forM fun tid htid => ?_) fun _ => .bind (h.stillTraced opens l) fun _ => ?_
  . exact .bind (h.nuclearDetach (hl tid htid) 3) fun _ => .pure _
  . exact .bind (h.wakeUp htarget hl 20) fun _ => .pure _

end KeepsAll

end Tracing

def Routine.signals : Routine → Bool
  | .attachAllThreads _ => false
  | .resumeTid _ => false
  | .resolveDeadlockStrategy1 _ _ _ => true
  | .stopTheWorld _ _ => true
  | .resolveGroupDeadlock _ _ _ => true
  | .shutdownClean _ => false

namespace Tracing

variable {env : TraceEnv} {I : Tracing → Prop} {tids : Set Pid}

protected theorem KeepsAttach.requests (h : KeepsAttach env I tids) {routine : Routine}
    (hsignals : routine.signals = false) (hroutine : ∀ tid ∈ routine.tids, tid ∈ tids) :
    Preserves I (routine.requests env) := by
  cases routine with
  | attachAllThreads l => exact .forM fun tid htid => h.attachThread (hroutine tid htid)
  | resumeTid tid => exact h.resumeTid (hroutine tid List.mem_cons_self)
  | shutdownClean l => exact h.shutdownClean hroutine
  | resolveDeadlockStrategy1 _ _ _ | stopTheWorld _ _ | resolveGroupDeadlock _ _ _ => cases hsignals

protected theorem KeepsAll.requests (h : KeepsAll env I tids) {routine : Routine}
    (hroutine : ∀ tid ∈ routine.tids, tid ∈ tids) : Preserves I (routine.requests env) := by
  cases routine with
  | attachAllThreads _ | resumeTid _ | shutdownClean _ => exact h.toKeepsAttach.requests rfl hroutine
  | resolveDeadlockStrategy1 fate victimTid l =>
    obtain ⟨hvictim, hl⟩ := List.forall_mem_cons.mp hroutine
    exact .bind (h.resolveDeadlockStrategy1 fate hvictim hl) fun _ => .pure _
  | stopTheWorld targetPid l =>
    obtain ⟨htarget, hl⟩ := List.forall_mem_cons.mp hroutine
    exact .bind (h.stopTheWorld (h.onKill targetPid htarget) hl) fun _ => .pure _
  | resolveGroupDeadlock targetPid opens l =>
    obtain ⟨htarget, hl⟩ := List.forall_mem_cons.mp hroutine
    exact .bind (h.resolveGroupDeadlock opens (h.onKill targetPid htarget) hl) fun _ => .pure _

end Tracing

/--
The calls that Linux permits for the thread do not change it, unless they are signals: it is gone, it has another
tracer, or it runs.
-/
def Tracee.Inert (t : Tracee) : Prop :=
  t.alive = false ∨ t.tracer = .other ∨ (t.tracer = .us ∧ t.stopped = false)

def Blocks (env : TraceEnv) (tid : Pid) : Prop := ∀ k tid', env.takes k tid' tid = false

namespace Tracing

variable {env : TraceEnv} {tid : Pid} {A : Nat → Tracee → Prop}

theorem effect_of_inert {t : Tracee} (h : t.Inert) {c : TraceCall} (hpermits : t.permits c = true)
    (hwait : ∀ nohang, c ≠ .waitpid nohang) (hkill : c ≠ .kill) (n : Nat) (takes : Bool) :
    c ≠ .attach ∧ t.effect n takes c = t := by
  obtain ⟨alive, tracer, stopped, tracing, exitKill⟩ := t
  cases c with
  | waitpid nohang => exact absurd rfl (hwait nohang)
  | kill => exact absurd rfl hkill
  | interrupt => cases hpermits
  | attach | setOptions _ | syscall | cont | detach =>
    exfalso
    simp only [Tracee.permits, Bool.and_eq_true, decide_eq_true_eq] at hpermits
    simp_all [Tracee.Inert]

theorem signaled_of_inert {t : Tracee} (h : t.Inert) : t.signaled false = t := by
  obtain ⟨alive, tracer, stopped, tracing, exitKill⟩ := t
  rcases h with rfl | rfl | ⟨rfl, rfl⟩
  . rfl
  . cases alive <;> simp [Tracee.signaled]
  . cases alive <;> simp [Tracee.signaled]

theorem steady_of_inert (hblocks : Blocks env tid) (hinert : ∀ time t, A time t → t.Inert) : Steady env tid A := by
  intro k tid' time t hA
  rw [hblocks k tid', signaled_of_inert (hinert time t hA)]
  exact hA

theorem steady_dead : Steady env tid fun _ t => t.alive = false := by
  intro k tid' _ t h
  rw [Tracee.signaled_of_not_alive t _ h]
  exact h

theorem preserves_call_of_inert (h : Stable env tid A) (hinert : ∀ time t, A time t → t.Inert) (tid' : Pid)
    {c : TraceCall} (hwait : ∀ nohang, c ≠ .waitpid nohang) (hkill : c ≠ .kill) :
    Preserves (At tid A) (call env tid' c) := by
  by_cases hne : tid' = tid
  . subst hne
    apply preserves_call_of_effect h
    intro time t n k hA hpermits
    rwa [(effect_of_inert (hinert time t hA) hpermits hwait hkill n _).2]
  . exact preserves_call_of_not_concerns h (not_concerns_of_ne hne hkill)

theorem keepsAttach_of_inert (h : Stable env tid A) (hinert : ∀ time t, A time t → t.Inert) :
    KeepsAttach env (At tid A) Set.univ where
  onPause := preserves_pause h
  onCall tid' _ c hc := preserves_call_of_inert h hinert tid' (by rintro nohang rfl; cases hc) hc.ne_kill
  onAttach tid' _ := by
    by_cases hne : tid' = tid
    . subst hne
      refine (ensures_call h .attach).imp (fun _ hs => hs) fun r s hs => ?_
      cases r with
      | ok n =>
        obtain ⟨t, k, hA, hpermits, -⟩ := hs
        exact absurd rfl (effect_of_inert (hinert _ t hA) hpermits (by simp) (by simp) n (env.takes k tid' tid')).1
      | error errno => exact ⟨fun hsucceeded => absurd hsucceeded Bool.false_ne_true, hs.1⟩
    . exact (keepsAttach_of_ne h).onAttach tid' hne

theorem keepsAll_of_inert (h : Stable env tid A) (hsteady : Steady env tid A)
    (hinert : ∀ time t, A time t → t.Inert) : KeepsAll env (At tid A) Set.univ where
  toKeeps := (keepsAttach_of_inert h hinert).toKeeps
  onKill tid' _ := preserves_kill h hsteady tid'
  onAttach := (keepsAttach_of_inert h hinert).onAttach

def alone (env : TraceEnv) (tid : Pid) (s : Tracing) : Nat → Tracee
  | 0 => s.thread tid
  | n + 1 => env.moves (s.time + n) tid (alone env tid s n)

def Unsignaled (env : TraceEnv) (tid : Pid) (routines : List Routine) : Prop :=
  ∀ routine ∈ routines, routine.signals = false ∨ ∀ tid' ∈ routine.tids, env.process tid' ≠ env.process tid

/--
The monitor can do nothing to the thread: it is gone, or what Linux permits does not change it and it takes none of the
signals, or it is in none of the lists and gets none of the signals.
-/
def Untouched (env : TraceEnv) (tid : Pid) (s : Tracing) (routines : List Routine) : Prop :=
  (∀ n, (alone env tid s n).alive = false) ∨
  ((∀ n, (alone env tid s n).Inert) ∧ (Blocks env tid ∨ Unsignaled env tid routines)) ∨
  ((∀ routine ∈ routines, tid ∉ routine.tids) ∧ Unsignaled env tid routines)

theorem preserves_of_unsignaled (h : Stable env tid A) {routine : Routine}
    (hunsignaled : routine.signals = false ∨ ∀ tid' ∈ routine.tids, env.process tid' ≠ env.process tid)
    (hkeeps : (∀ time t, A time t → t.Inert) ∨ tid ∉ routine.tids) : Preserves (At tid A) (routine.requests env) := by
  rcases hunsignaled with hsignals | hprocess
  . rcases hkeeps with hinert | hlisted
    . exact (keepsAttach_of_inert h hinert).requests hsignals fun _ _ => trivial
    . exact (keepsAttach_of_ne h).requests hsignals fun tid' htid' heq => hlisted (heq ▸ htid')
  . exact (keepsAll_of_process_ne h).requests hprocess

/--
Whatever the monitor does, in whichever order and with whichever outcomes: a thread that it cannot touch goes through
its states as if there was no monitor.
-/
theorem thread_eq_alone (env : TraceEnv) (tid : Pid) (s : Tracing) (routines : List Routine)
    (h : Untouched env tid s routines) :
    ((routines.forM (Routine.requests env)).run s).2.thread tid
      =
    alone env tid s (((routines.forM (Routine.requests env)).run s).2.time - s.time) := by
  let A : Nat → Tracee → Prop := fun time t => s.time ≤ time ∧ t = alone env tid s (time - s.time)
  have hstable : Stable env tid A := by
    rintro time t ⟨hle, rfl⟩
    refine ⟨by omega, ?_⟩
    rw [Nat.succ_sub hle, alone, Nat.add_sub_cancel' hle]
  have hA : ∀ {p : Tracee → Prop}, (∀ n, p (alone env tid s n)) → ∀ time t, A time t → p t := by
    rintro p hp time t ⟨-, rfl⟩
    exact hp _
  have hkeeps : ∀ routine ∈ routines, Preserves (At tid A) (Routine.requests env routine) := by
    intro routine hroutine
    rcases h with hdead | ⟨hinert, hblocks | hunsignaled⟩ | ⟨hlisted, hunsignaled⟩
    . have hsteady : Steady env tid A := by
        intro k tid' time t ht
        rwa [Tracee.signaled_of_not_alive t _ (hA (p := fun t => t.alive = false) hdead time t ht)]
      have hgone := hA (p := Tracee.Inert) fun n => .inl (hdead n)
      exact (keepsAll_of_inert hstable hsteady hgone).requests fun _ _ => trivial
    . exact (keepsAll_of_inert hstable (steady_of_inert hblocks (hA hinert)) (hA hinert)).requests fun _ _ => trivial
    . exact preserves_of_unsignaled hstable (hunsignaled routine hroutine) (.inl (hA hinert))
    . exact preserves_of_unsignaled hstable (hunsignaled routine hroutine) (.inr (hlisted routine hroutine))
  have hstart : At tid A s := ⟨Nat.le_refl s.time, by rw [Nat.sub_self]; rfl⟩
  exact (Preserves.forM hkeeps s hstart).2

theorem thread_eq_alone_running :
    let s : Tracing := { thread := fun _ => ⟨true, .us, false, true, true⟩ }
    let routines : List Routine := [.resolveGroupDeadlock 2 (fun _ => true) [2], .shutdownClean [1]]
    ((routines.forM (Routine.requests .still)).run s).2.thread 1
      =
    alone .still 1 s (((routines.forM (Routine.requests .still)).run s).2.time - s.time) := by
  intro s routines
  apply thread_eq_alone
  have halone : ∀ n, alone .still 1 s n = ⟨true, .us, false, true, true⟩ := by
    intro n
    induction n with
    | zero => rfl
    | succ n ih => exact ih
  refine .inr (.inl ⟨fun n => ?_, .inr ?_⟩)
  . rw [halone n]
    exact .inr (.inr ⟨rfl, rfl⟩)
  . simp [routines, Unsignaled, Routine.signals, Routine.tids, TraceEnv.still]

end Tracing

end DeadlockInterceptor
