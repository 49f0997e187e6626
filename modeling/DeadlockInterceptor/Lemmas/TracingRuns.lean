import DeadlockInterceptor.Lemmas.Reattaching
import DeadlockInterceptor.Transition.Run

/-!
This module contains what becomes of a thread in a run of the monitor: it is attached to, goes on to be monitored as
long as no routine loses it, and is killed in the end if it is not stopped then.
-/

namespace DeadlockInterceptor

namespace Tracee

/-- We see its next system call, unless it is gone: it is stopped already or will be. -/
def Kept (t : Tracee) : Prop :=
  t.alive = true → t.tracer = .us ∧ (t.stopped = true ∨ t.syscallTracing = true)

def Bound (t : Tracee) : Prop := t.alive = true → t.tracer = .us ∧ t.exitKill = true

variable {t : Tracee}

theorem Watched.kept (h : t.Watched) : t.Kept := fun halive => ⟨(h halive).1, .inr (h halive).2⟩

theorem Caught.kept (h : t.Caught) : t.Kept := fun halive => ⟨h.1, .inl (h.2 halive)⟩

theorem kept_of_not_alive (h : t.alive = false) : t.Kept := by simp [Kept, h]

theorem bound_of_not_alive (h : t.alive = false) : t.Bound := by simp [Bound, h]

theorem Kept.signaled (h : t.Kept) (takes : Bool) : (t.signaled takes).Kept := by
  intro halive
  rw [signaled_alive] at halive
  obtain ⟨hours, hsees⟩ := h halive
  rw [signaled_tracer, signaled_syscallTracing, signaled_stopped_of_us t takes halive hours, Bool.or_eq_true]
  exact ⟨hours, hsees.imp .inl id⟩

theorem Bound.signaled (h : t.Bound) (takes : Bool) : (t.signaled takes).Bound := by simpa [Bound] using h

end Tracee

namespace Tracing

variable {env : TraceEnv} {tid : Pid}

theorem stable_kept (hdead : NotReused env tid) : Stable env tid fun _ => Tracee.Kept := by
  intro time t h halive
  obtain ⟨htracer, hsees⟩ := h (alive_of_moves hdead halive)
  have hmoves := env.moves_moves time tid t
  refine ⟨hmoves.tracer.mpr htracer, ?_⟩
  rw [hmoves.syscallTracing htracer]
  exact hsees.imp (hmoves.stopped htracer) id

theorem stable_bound (hdead : NotReused env tid) : Stable env tid fun _ => Tracee.Bound := by
  intro time t h halive
  obtain ⟨htracer, hkill⟩ := h (alive_of_moves hdead halive)
  have hmoves := env.moves_moves time tid t
  exact ⟨hmoves.tracer.mpr htracer, (hmoves.exitKill htracer).trans hkill⟩

theorem steady_kept : Steady env tid fun _ => Tracee.Kept := fun _ _ _ _ h => h.signaled _

section attach

theorem preserves_attachThread {A : Tracee → Prop} (hstable : Stable env tid fun _ => A)
    (hours : ∀ t, A t → t.alive = true → t.tracer = .us) : Preserves (At tid fun _ => A) (attachThread env tid) := by
  change Ensures _ _ fun _ => At tid fun _ => A
  refine .bind (ensures_threadExists hstable) fun _ => .ite (fun _ => ?_) fun _ => .pure fun _ hs => hs.2
  have hattach :
      Ensures (At tid fun _ => A) (succeeds env tid .attach) fun b s => b = false ∧ At tid (fun _ => A) s := by
    refine .bind (ensures_call hstable .attach) fun r => .pure fun s hs => ?_
    cases r with
    | ok n =>
      obtain ⟨t, k, ht, hpermits, -⟩ := hs
      simp only [Tracee.permits, Bool.and_eq_true, decide_eq_true_eq] at hpermits
      have htracer := hours t ht hpermits.1
      rw [hpermits.2] at htracer
      cases htracer
    | error errno => exact ⟨rfl, hs.1⟩
  exact .bind_eq (hattach.imp (fun _ hs => hs.2) fun _ _ hs => hs) (.pure fun _ hs => hs)

theorem preserves_attachAllThreads {A : Tracee → Prop} (hstable : Stable env tid fun _ => A)
    (hours : ∀ t, A t → t.alive = true → t.tracer = .us) (tids : List Pid) :
    Preserves (At tid fun _ => A) (attachAllThreads env tids) := by
  refine .forM fun tid' _ => ?_
  by_cases hne : tid' = tid
  . rw [hne]
    exact preserves_attachThread hstable hours
  . exact (keepsAttach_of_ne hstable).attachThread hne

variable (hreliable : Reliable env tid) (hdead : NotReused env tid) (htaken : NotTaken env tid)
include hreliable hdead htaken

theorem ensures_attachThread :
    Ensures (At tid fun _ => Tracee.Loose) (attachThread env tid) fun _ => At tid fun _ t => t.Kept ∧ t.Bound := by
  have hstable : Stable env tid fun _ t => t.Caught ∧ t.Bound :=
    fun time t h => ⟨stable_caught time t h.1, stable_bound hdead time t h.2⟩
  have hend : ∀ {s : Tracing}, (s.thread tid).alive = false → At tid (fun _ t => t.Kept ∧ t.Bound) s :=
    fun h => ⟨Tracee.kept_of_not_alive h, Tracee.bound_of_not_alive h⟩
  have hsyscall : Ensures (At tid fun _ t => t.Caught ∧ t.Bound) (call env tid .syscall) fun _ =>
      At tid fun _ t => t.Kept ∧ t.Bound := by
    refine (ensures_call hstable .syscall).imp (fun _ hs => hs) fun r s hs => ?_
    cases r with
    | ok n =>
      obtain ⟨t, k, ht, -, hthread, -⟩ := hs
      rw [At, hthread]
      exact ⟨fun _ => ⟨ht.1.1, .inr rfl⟩, fun halive => ⟨ht.1.1, (ht.2 halive).2⟩⟩
    | error errno => exact ⟨hs.1.1.kept, hs.1.2⟩
  have hattach : Ensures (At tid fun _ => Tracee.Loose) (succeeds env tid .attach) fun b =>
      At tid fun _ t => if b = true then t.Caught else t.alive = false :=
    .bind (ensures_attach_of_loose hreliable hdead htaken) fun _ => .pure fun _ hs => hs
  refine .bind (ensures_threadExists (stable_loose hdead htaken)) fun b => .ite (fun _ => ?_) fun hb => ?_
  . refine .bind (hattach.imp (fun _ hs => hs.2) fun _ _ hs => hs) fun b => ?_
    cases b with
    | true =>
      refine .bind (preserves_caught_waitpid false).ensures fun _ => ?_
      refine .bind (ensures_setOptions_of_caught hreliable true) fun _ => ?_
      refine .bind (hsyscall.imp (fun s hs => ?_) fun _ _ hs => hs) fun _ => .pure fun _ hs => hs
      exact ⟨hs.1, fun halive => ⟨hs.1.1, hs.2.1 halive⟩⟩
    | false => exact .pure fun _ hs => hend hs
  . exact .pure fun s hs => hend (hs.1 (Bool.not_eq_true _ ▸ hb))

theorem ensures_attachAllThreads {tids : List Pid} (htid : tid ∈ tids) :
    Ensures (At tid fun _ => Tracee.Loose) (attachAllThreads env tids) fun _ =>
      At tid fun _ t => t.Kept ∧ t.Bound := by
  have hstable : Stable env tid fun _ t => t.Kept ∧ t.Bound :=
    fun time t h => ⟨stable_kept hdead time t h.1, stable_bound hdead time t h.2⟩
  refine .forM_of_mem htid (ensures_attachThread hreliable hdead htaken)
    (fun _ _ hne => (keepsAttach_of_ne (stable_loose hdead htaken)).attachThread hne) fun tid' _ => ?_
  by_cases hne : tid' = tid
  . rw [hne]
    exact preserves_attachThread hstable fun t ht halive => (ht.1 halive).1
  . exact (keepsAttach_of_ne hstable).attachThread hne

end attach

theorem ensures_resumeTid_of_caught (hreliable : Reliable env tid) (hdead : NotReused env tid) :
    Ensures (At tid fun _ => Tracee.Caught) (resumeTid env tid) fun _ => At tid fun _ => Tracee.Kept := by
  refine .bind (ensures_threadExists stable_caught) fun _ => .ite (fun _ => ?_) fun _ => .pure fun _ hs => hs.2.kept
  refine .bind ((ensures_syscall_of_caught hreliable).imp (fun _ hs => hs.2) fun _ _ hs => hs) fun b => ?_
  refine .ite (fun hb => ?_) fun _ => .pure fun _ hs => hs.1.kept
  rw [Bool.not_eq_true'] at hb
  refine .bind (((keepsAll_dead hdead).onCall tid trivial .cont trivial).ensures.imp (fun _ hs => hs.2 hb)
    fun _ _ hs => hs) fun _ => .pure fun _ hs => Tracee.kept_of_not_alive hs

theorem preserves_bound_resumeTid (hdead : NotReused env tid) (tid' : Pid) :
    Preserves (At tid fun _ => Tracee.Bound) (resumeTid env tid') := by
  have hstable := stable_bound hdead
  by_cases hne : tid' = tid
  . subst hne
    have hkeeps : Keeps env (At tid' fun _ => Tracee.Bound) ∅ := ⟨preserves_pause hstable, fun _ h => h.elim⟩
    have hsyscall : Preserves (At tid' fun _ => Tracee.Bound) (call env tid' .syscall) :=
      preserves_call_of_effect hstable .syscall fun _ _ _ _ ht _ => ht
    have hcont : Preserves (At tid' fun _ => Tracee.Bound) (call env tid' .cont) :=
      preserves_call_of_effect hstable .cont fun _ _ _ _ ht _ => ht
    refine .bind (hkeeps.threadExists tid') fun _ => .ite ?_ (.pure _)
    exact .bind (.bind hsyscall fun _ => .pure _) fun _ => .ite (.bind hcont fun _ => .pure _) (.pure _)
  . exact (keepsAttach_of_ne hstable).resumeTid hne

/--
The monitor is started and stopped again: of the threads it has attached to, it takes those along that are not stopped
when it comes to shut down.
-/
theorem killedAtExit_iff_running (env env' : TraceEnv) (tid : Pid) (tids resumed tids' : List Pid) (s : Tracing)
    (hreliable : Reliable env tid) (hdead : NotReused env tid) (htaken : NotTaken env tid)
    (hreliable' : Reliable env' tid) (hrunning' : StaysRunning env' tid)
    (htid : tid ∈ tids) (htid' : tid ∈ tids') (hnobody : (s.thread tid).tracer = .nobody) :
    let s₂ := ((do attachAllThreads env tids; resumed.forM (resumeTid env)).run s).2
    let s₃ := ((shutdownClean env' tids').run s₂).2
    (s₃.thread tid).alive = true → (s₂.thread tid).alive = true →
      (KilledAtExit tid s₃ ↔ (s₂.thread tid).stopped = false) := by
  intro s₂ s₃ halive₃ halive₂
  have hattach : Ensures (At tid fun _ => Tracee.Loose) (attachAllThreads env tids) fun _ =>
      At tid fun _ => Tracee.Bound :=
    (ensures_attachAllThreads hreliable hdead htaken htid).imp (fun _ hs => hs) fun _ _ hs => hs.2
  have hbound : Ensures (At tid fun _ => Tracee.Loose) (do attachAllThreads env tids; resumed.forM (resumeTid env))
      fun _ => At tid fun _ => Tracee.Bound :=
    .bind hattach fun _ => (Preserves.forM fun tid' _ => preserves_bound_resumeTid hdead tid').ensures
  obtain ⟨hours, hkill⟩ := hbound s (fun _ => hnobody) halive₂
  have hiff := killedAtExit_iff env' tid (.shutdownClean tids') s₂ hreliable' (fun hfalse => by cases hfalse) hrunning'
    htid' hours halive₃
  exact hiff.trans ⟨fun h => h.1, fun h => ⟨h, hkill⟩⟩

theorem killedAtExit_iff_running_still :
    let s : Tracing := { thread := fun _ => ⟨true, .nobody, false, false, false⟩ }
    let s₂ := ((do attachAllThreads .still [1]; [1].forM (resumeTid .still)).run s).2
    let s₃ := ((shutdownClean .still [1]).run s₂).2
    (s₃.thread 1).alive = true ∧ (KilledAtExit 1 s₃ ↔ (s₂.thread 1).stopped = false) :=
  ⟨rfl, killedAtExit_iff_running .still .still 1 [1] [1] [1] _ (reliable_still 1) (notReused_still 1)
    (notTaken_still 1) (reliable_still 1) (staysRunning_still 1) List.mem_cons_self List.mem_cons_self rfl rfl rfl⟩

section group

theorem stable_us : Stable env tid fun _ t => t.tracer = .us :=
  fun time t h => (env.moves_moves time tid t).tracer.mpr h

theorem steady_us : Steady env tid fun _ t => t.tracer = .us := fun _ _ _ _ h => by simpa using h

theorem ensures_kill_of_us (hreliable : Reliable env tid) (htakes : Takes env tid) :
    Ensures (At tid fun _ t => t.tracer = .us) (call env tid .kill) fun _ => At tid fun _ => Tracee.Caught := by
  refine (ensures_call stable_us .kill).imp (fun _ hs => hs) fun r s hs => ?_
  cases r with
  | ok n =>
    obtain ⟨t, k, hours, halive, hthread, -⟩ := hs
    rw [At, hthread, htakes k, Tracee.effect]
    refine ⟨by rwa [Tracee.signaled_tracer], fun _ => ?_⟩
    rw [Tracee.signaled_stopped_of_us t true halive hours, Bool.or_true]
  | error errno =>
    obtain ⟨hours, hpermits⟩ := hs.refused hreliable
    exact ⟨hours, fun halive => absurd hpermits (by simp [Tracee.permits, halive])⟩

theorem ensures_nuclearDetach_of_us (hreliable : Reliable env tid) (htakes : Takes env tid) (attempts : Nat) :
    Ensures (At tid fun _ t => t.tracer = .us) (nuclearDetach env tid (attempts + 2)) fun _ =>
      At tid fun _ => Tracee.Released := by
  have hdetach : Ensures (At tid fun _ t => t.tracer = .us) (succeeds env tid .detach) fun b =>
      At tid fun _ t => if b = true then t.Released else t.tracer = .us := by
    refine .bind (ensures_call stable_us .detach) fun r => .pure fun s hs => ?_
    cases r with
    | ok n =>
      obtain ⟨t, k, -, -, hthread, -⟩ := hs
      rw [At, hthread]
      exact fun _ hfalse => by cases hfalse
    | error errno => exact hs.1
  have hattach : Ensures (At tid fun _ t => t.tracer = .us) (succeeds env tid .attach) fun b s =>
      b = false ∧ At tid (fun _ t => t.tracer = .us) s := by
    refine .bind (ensures_call stable_us .attach) fun r => .pure fun s hs => ?_
    cases r with
    | ok n =>
      obtain ⟨t, k, hours, hpermits, -⟩ := hs
      simp [Tracee.permits, hours] at hpermits
    | error errno => exact ⟨rfl, hs.1⟩
  have hrest : Ensures (At tid fun _ t => t.tracer = .us) (attachThenDetach env tid) fun b s =>
      b = false ∧ At tid (fun _ => Tracee.Caught) s := by
    have hno : Ensures (At tid fun _ t => t.tracer = .us) (pure false : StateM Tracing Bool) fun b s =>
        b = false ∧ At tid (fun _ t => t.tracer = .us) s := .pure fun _ hs => ⟨rfl, hs⟩
    refine .bind_eq hattach (.bind_eq hno ?_)
    exact .bind (ensures_kill_of_us hreliable htakes) fun _ => .pure fun _ hs => ⟨rfl, hs⟩
  have hattempt : Ensures (At tid fun _ t => t.tracer = .us) (nuclearAttempt env tid) fun b =>
      At tid fun _ t => if b = true then t.Released else t.Caught := by
    refine .bind hdetach fun detached => ?_
    cases detached with
    | true => exact .pure fun _ hs => hs
    | false =>
      refine hrest.imp (fun _ hs => hs) fun b s hs => ?_
      rw [hs.1]
      exact hs.2
  refine .bind hattempt fun detached => ?_
  cases detached with
  | true => exact .pure fun _ hs => hs
  | false => exact ensures_nuclearDetach_of_caught hreliable attempts

theorem ensures_stillTraced_of_released (opens : Pid → Bool) (allTids : List Pid) :
    Ensures (At tid fun _ => Tracee.Released) (stillTraced env opens allTids) fun still s =>
      tid ∉ still ∧ At tid (fun _ => Tracee.Released) s := by
  induction allTids with
  | nil => exact .pure fun _ hs => ⟨List.not_mem_nil, hs⟩
  | cons tid' allTids ih =>
    by_cases hne : tid' = tid
    . subst hne
      refine .bind (Q := fun t s => t.Released ∧ At tid' (fun _ => Tracee.Released) s)
        ((ensures_observe stable_released).imp (fun _ hs => hs) fun t s hs => ⟨hs.1 ▸ hs.2, hs.2⟩) fun t => ?_
      refine .and_left fun ht => .bind ih fun still => .pure fun s hs => ⟨?_, hs.2⟩
      rw [if_neg]
      . exact hs.1
      . rw [Bool.and_eq_true, Bool.and_eq_true, decide_eq_true_eq]
        exact fun htraced => ht htraced.1.2 htraced.2
    . refine .bind (keeps_released.observe tid').ensures fun t => .bind ih fun still => .pure fun s hs => ⟨?_, hs.2⟩
      split
      . exact fun hmem => hs.1 ((List.mem_cons.mp hmem).resolve_left fun heq => hne heq.symm)
      . exact hs.1

theorem ensures_resolveGroupDeadlock_of_nuclear {A : Nat → Tracee → Prop} (targetPid : Pid) (opens : Pid → Bool)
    (allTids : List Pid)
    (h : Ensures (At tid A) (nuclearDetachAll env allTids) fun _ => At tid fun _ => Tracee.Released) :
    Ensures (At tid A) (resolveGroupDeadlock env targetPid opens allTids) fun still s =>
      tid ∉ still ∧ (s.thread tid).Released := by
  refine .bind h fun _ => .bind (ensures_stillTraced_of_released opens allTids) fun still => .and_left fun hmem => ?_
  refine .bind (keeps_released.wakeUp (keeps_released.onKill targetPid trivial)
    (fun _ _ => trivial) 20).ensures fun _ => ?_
  exact .pure fun _ hs => ⟨hmem, hs⟩

theorem ensures_released_of_group (hreliable : Reliable env tid) (htakes : Takes env tid) (targetPid : Pid)
    (opens : Pid → Bool) {allTids : List Pid} (htid : tid ∈ allTids) :
    Ensures (At tid fun _ t => t.tracer = .us) (resolveGroupDeadlock env targetPid opens allTids) fun still s =>
      tid ∉ still ∧ (s.thread tid).Released := by
  apply ensures_resolveGroupDeadlock_of_nuclear
  have hus : KeepsAll env (At tid fun _ t => t.tracer = .us) {tid' | tid' ≠ tid} := keepsAll_of_ne stable_us steady_us
  refine .forM_of_mem htid (.bind (ensures_nuclearDetach_of_us hreliable htakes 1) fun _ => .pure fun _ hs => hs)
    (fun tid' _ hne => .bind (hus.nuclearDetach hne 3) fun _ => .pure _) fun tid' _ => ?_
  exact .bind ((releases_nuclearDetach hreliable).released tid') fun _ => .pure _

theorem ensures_released_of_group_of_caught (hreliable : Reliable env tid) (targetPid : Pid) (opens : Pid → Bool)
    {allTids : List Pid} (htid : tid ∈ allTids) :
    Ensures (At tid fun _ => Tracee.Caught) (resolveGroupDeadlock env targetPid opens allTids) fun still s =>
      tid ∉ still ∧ (s.thread tid).Released :=
  ensures_resolveGroupDeadlock_of_nuclear targetPid opens allTids ((releases_nuclearDetach hreliable).discard.forM htid)

theorem ensures_stillTraced_of_running (hrunning : StaysRunning env tid) (hdead : NotReused env tid)
    (opens : Pid → Bool) (syscallTracing exitKill : Bool) (allTids : List Pid) :
    Ensures (At tid (Running syscallTracing exitKill)) (stillTraced env opens allTids) fun still s =>
      (tid ∈ still → opens tid = true) ∧
        (tid ∈ allTids → opens tid = true → tid ∈ still ∨ (s.thread tid).alive = false) ∧
        At tid (Running syscallTracing exitKill) s := by
  have hstable := stable_running hrunning syscallTracing exitKill
  have hkeeps : Keeps env (At tid (Running syscallTracing exitKill)) ∅ :=
    ⟨preserves_pause hstable, fun _ h => h.elim⟩
  induction allTids with
  | nil => exact .pure fun _ hs =>
      ⟨fun hmem => absurd hmem List.not_mem_nil, fun hmem => absurd hmem List.not_mem_nil, hs⟩
  | cons tid' allTids ih =>
    by_cases hne : tid' = tid
    . subst hne
      have hobserve : Ensures (At tid' (Running syscallTracing exitKill)) (observe env tid') fun t s =>
          t.tracer = .us ∧ (t.alive = false → (s.thread tid').alive = false) ∧
            At tid' (Running syscallTracing exitKill) s :=
        (ensures_observe hstable).imp (fun _ hs => hs) fun t s hs => ⟨hs.1 ▸ hs.2.1.1, fun h => hs.1 ▸ h, hs.2⟩
      refine .bind hobserve fun t => .and_left fun htracer => ?_
      cases halive : t.alive with
      | true =>
        refine .bind (ih.imp (fun _ hs => hs.2) fun _ _ hs => hs) fun still => .pure fun s hs => ?_
        simp only [Bool.and_true, htracer, decide_true]
        split
        . next hopens => exact ⟨fun _ => hopens, fun _ _ => .inl List.mem_cons_self, hs.2.2⟩
        . next hopens => exact ⟨hs.1, fun _ hopens' => absurd hopens' hopens, hs.2.2⟩
      | false =>
        have hgone : Preserves (At tid' fun _ t => t.alive = false) (stillTraced env opens allTids) :=
          (keepsAll_dead hdead).stillTraced opens allTids
        have hrest : Ensures (fun s => (false = false → (s.thread tid').alive = false) ∧
            At tid' (Running syscallTracing exitKill) s) (stillTraced env opens allTids) fun still s =>
              (tid' ∈ still → opens tid' = true) ∧ (s.thread tid').alive = false ∧
                At tid' (Running syscallTracing exitKill) s :=
          fun s hs => ⟨(ih s hs.2).1, hgone s (hs.1 rfl), (ih s hs.2).2.2⟩
        refine .bind hrest fun still => .pure fun s hs => ?_
        simp only [Bool.and_false, Bool.false_and, Bool.false_eq_true, if_false]
        exact ⟨hs.1, fun _ _ => .inr hs.2.1, hs.2.2⟩
    . refine .bind (hkeeps.observe tid').ensures fun t => .bind ih fun still => .pure fun s hs => ?_
      have hmem : ∀ l : List Pid, tid ∈ tid' :: l ↔ tid ∈ l := by
        intro l
        rw [List.mem_cons, or_iff_right fun heq => hne heq.symm]
      rw [hmem]
      split
      . rw [hmem]
        exact hs
      . exact hs

theorem ensures_mem_still_of_running (hrunning : StaysRunning env tid) (hdead : NotReused env tid)
    (hblocks : Blocks env tid) (targetPid : Pid) (opens : Pid → Bool) {allTids : List Pid} (htid : tid ∈ allTids)
    (syscallTracing exitKill : Bool) :
    Ensures (At tid (Running syscallTracing exitKill)) (resolveGroupDeadlock env targetPid opens allTids)
      fun still s => (tid ∈ still → opens tid = true) ∧
        (opens tid = true → tid ∈ still ∨ (s.thread tid).alive = false) := by
  have hkeeps : KeepsAll env (At tid (Running syscallTracing exitKill)) Set.univ :=
    keepsAll_of_inert (stable_running hrunning syscallTracing exitKill)
      (steady_of_inert hblocks fun _ _ => Running.inert) fun _ _ => Running.inert
  have hnuclear : Preserves (At tid (Running syscallTracing exitKill)) (nuclearDetachAll env allTids) :=
    .forM fun tid' _ => .bind (hkeeps.nuclearDetach trivial 3) fun _ => .pure _
  have hgone : Preserves (At tid fun _ t => t.alive = false) (wakeUp env targetPid allTids 20) :=
    (keepsAll_dead hdead).wakeUp ((keepsAll_dead hdead).onKill targetPid trivial) (fun _ _ => trivial) 20
  refine .bind hnuclear.ensures fun _ => ?_
  refine .bind (ensures_stillTraced_of_running hrunning hdead opens _ _ allTids) fun still => ?_
  refine .and_left fun hmem => .bind (Q := fun _ s => opens tid = true → tid ∈ still ∨ (s.thread tid).alive = false)
    (fun s hs hopens => ?_) fun _ => .pure fun _ hs => ⟨hmem, hs⟩
  exact (hs.1 htid hopens).imp id (hgone s)

/--
A thread that takes its signals is stopped by the first attempt of `resolve_group_deadlock` and detached by the second
one. If it blocks them, then it is detached only if it is stopped already. The verification finds it otherwise, if its
status file can be opened.
-/
theorem mem_stillTraced_iff (env : TraceEnv) (tid targetPid : Pid) (opens : Pid → Bool) (allTids : List Pid)
    (s : Tracing) (hreliable : Reliable env tid) (hdead : NotReused env tid) (htid : tid ∈ allTids)
    (hours : (s.thread tid).tracer = .us)
    (halive : (((resolveGroupDeadlock env targetPid opens allTids).run s).2.thread tid).alive = true) :
    (Takes env tid →
      tid ∉ ((resolveGroupDeadlock env targetPid opens allTids).run s).1 ∧
        (((resolveGroupDeadlock env targetPid opens allTids).run s).2.thread tid).tracer ≠ .us)
      ∧
    (Blocks env tid → StaysRunning env tid →
      (tid ∈ ((resolveGroupDeadlock env targetPid opens allTids).run s).1
        ↔
      opens tid = true ∧ (s.thread tid).stopped = false)) := by
  constructor
  . intro htakes
    obtain ⟨hmem, hreleased⟩ := ensures_released_of_group hreliable htakes targetPid opens htid s hours
    exact ⟨hmem, hreleased halive⟩
  . intro hblocks hrunning
    cases hstopped : (s.thread tid).stopped with
    | true =>
      have hcaught : (s.thread tid).Caught := ⟨hours, fun _ => hstopped⟩
      have hmem := (ensures_released_of_group_of_caught hreliable targetPid opens htid s hcaught).1
      exact ⟨fun h => absurd h hmem, fun hfalse => by cases hfalse.2⟩
    | false =>
      obtain ⟨hmem, hopens⟩ := ensures_mem_still_of_running hrunning hdead hblocks targetPid opens htid
        (s.thread tid).syscallTracing (s.thread tid).exitKill s ⟨⟨hours, rfl, rfl⟩, hstopped⟩
      refine ⟨fun h => ⟨hmem h, rfl⟩, fun h => (hopens h.1).resolve_right ?_⟩
      rw [halive]
      simp

def deaf : TraceEnv := { TraceEnv.still with takes := fun _ _ _ => false }

theorem mem_stillTraced_iff_running :
    let s : Tracing := { thread := fun _ => ⟨true, .us, false, true, true⟩ }
    1 ∉ ((resolveGroupDeadlock .still 2 (fun _ => true) [1]).run s).1 ∧
      (1 ∈ ((resolveGroupDeadlock deaf 2 (fun _ => true) [1]).run s).1
        ↔
      true = true ∧ (s.thread 1).stopped = false) := by
  have halive : ∀ env : TraceEnv, (∀ time tid t, env.moves time tid t = t) → ∀ s : Tracing,
      (s.thread 1).alive = true →
        (((resolveGroupDeadlock env 2 (fun _ => true) [1]).run s).2.thread 1).alive = true := by
    intro env hmoves
    have hkeeps : KeepsAll env (At 1 fun _ t => t.alive = true) Set.univ :=
      keepsAll_alive fun time t h => by rwa [hmoves]
    exact hkeeps.resolveGroupDeadlock _ (hkeeps.onKill 2 trivial) fun _ _ => trivial
  have hreliable : Reliable deaf 1 := ⟨fun _ _ => ⟨1, rfl⟩, fun _ h => by cases h⟩
  refine ⟨((mem_stillTraced_iff .still 1 2 (fun _ => true) [1] _ (reliable_still 1) (notReused_still 1)
    List.mem_cons_self rfl (halive .still (fun _ _ _ => rfl) _ rfl)).1 (takes_still 1)).1, ?_⟩
  exact (mem_stillTraced_iff deaf 1 2 (fun _ => true) [1] _ hreliable (fun _ _ h => h) List.mem_cons_self rfl
    (halive deaf (fun _ _ _ => rfl) _ rfl)).2 (fun _ _ => rfl) fun _ _ _ h => h

end group

def step (s : Tracing) (e : TraceEnv × Routine) : Tracing := ((e.2.requests e.1).run s).2

/--
A routine that does not lose the thread. It resumes it from a stop or finds it running all the time, its attempts to
detach find it running and do not bring it to a stop, or it attaches to it again in the end.
-/
def Spares (tid : Pid) (s : Tracing) (e : TraceEnv × Routine) : Prop :=
  match e.2 with
  | .attachAllThreads _ => True
  | .resumeTid tid' => tid' = tid → (s.thread tid).stopped = true ∨ StaysRunning e.1 tid
  | .resolveDeadlockStrategy1 .finished victimTid tids =>
    tid ∈ victimTid :: tids → tids.Nodup ∧ NotTaken e.1 tid ∧ Takes e.1 tid
  | .resolveGroupDeadlock _ _ allTids =>
    tid ∈ allTids → (s.thread tid).stopped = false ∧ StaysRunning e.1 tid ∧ Blocks e.1 tid
  | routine => tid ∈ routine.detached → (s.thread tid).stopped = false ∧ StaysRunning e.1 tid

theorem kept_of_ours {s s' : Tracing} (h : (s.thread tid).Kept) (halive : (s.thread tid).alive = true)
    (hstopped : (s.thread tid).stopped = false) {time : Nat}
    (hours : Ours (s.thread tid).syscallTracing (s.thread tid).exitKill time (s'.thread tid)) :
    (s'.thread tid).Kept := by
  have htracing : (s.thread tid).syscallTracing = true := (h halive).2.resolve_left (by simp [hstopped])
  exact fun _ => ⟨hours.1, .inr (hours.2.1.trans htracing)⟩

section step

variable {s : Tracing} (h : (s.thread tid).Kept) (halive : (s.thread tid).alive = true) (hdead : NotReused env tid)
include h halive hdead

theorem kept_resumeTid {tid' : Pid} (hreliable : Reliable env tid)
    (hspares : tid' = tid → (s.thread tid).stopped = true ∨ StaysRunning env tid) :
    (((resumeTid env tid').run s).2.thread tid).Kept := by
  by_cases heq : tid' = tid
  . subst heq
    cases hstopped : (s.thread tid').stopped with
    | true => exact ensures_resumeTid_of_caught hreliable hdead s ⟨(h halive).1, fun _ => hstopped⟩
    | false =>
      have hrunning := (hspares rfl).resolve_left (by simp [hstopped])
      have hstable := stable_running hrunning (s.thread tid').syscallTracing (s.thread tid').exitKill
      have hkeeps := (keepsAttach_of_inert hstable fun _ _ => Running.inert).resumeTid (Set.mem_univ tid')
      exact kept_of_ours h halive hstopped (hkeeps s ⟨⟨(h halive).1, rfl, rfl⟩, hstopped⟩).1
  . exact (keepsAttach_of_ne (stable_kept hdead)).resumeTid heq s h

omit hdead in
theorem kept_of_detached {routine : Routine} (hreliable : ∀ tid', Reliable env tid') (htid : tid ∈ routine.detached)
    (hspares : (s.thread tid).stopped = false ∧ StaysRunning env tid) :
    (((routine.requests env).run s).2.thread tid).Kept := by
  have hours := ensures_ours hspares.2 (fun _ tid' _ => hreliable tid') htid (s.thread tid).syscallTracing
    (s.thread tid).exitKill s ⟨⟨(h halive).1, rfl, rfl⟩, hspares.1⟩
  exact kept_of_ours h halive hspares.1 hours

omit halive in
theorem kept_of_not_listed {routine : Routine} (htid : tid ∉ routine.tids) :
    (((routine.requests env).run s).2.thread tid).Kept :=
  (keepsAll_of_ne (stable_kept hdead) steady_kept).requests (fun _ htid' heq => htid (heq ▸ htid')) s h

theorem kept_failed {fate : ShadowFate} {victimTid : Pid} {tids : List Pid} (hfate : fate ≠ .finished)
    (hreliable : ∀ tid', Reliable env tid')
    (hspares : tid ∈ tids → (s.thread tid).stopped = false ∧ StaysRunning env tid) :
    ((((Routine.resolveDeadlockStrategy1 fate victimTid tids).requests env).run s).2.thread tid).Kept := by
  have hfailed : tid ∉ tids → Preserves (At tid fun _ => Tracee.Kept)
      (do let _ ← detachAll env tids; let _ ← call env victimTid .kill; return false : StateM Tracing Bool) := by
    intro htid
    have hkeeps : KeepsAll env (At tid fun _ => Tracee.Kept) {tid' | tid' ≠ tid} :=
      keepsAll_of_ne (stable_kept hdead) steady_kept
    refine .bind (hkeeps.detachAll fun tid' htid' heq => htid (heq ▸ htid')) fun _ => ?_
    exact .bind (preserves_kill (stable_kept hdead) steady_kept victimTid) fun _ => .pure _
  by_cases htid : tid ∈ tids
  . cases fate with
    | forkFailed | waitFailed => exact kept_of_detached h halive hreliable htid (hspares htid)
    | finished => exact absurd rfl hfate
  . cases fate with
    | forkFailed | waitFailed => exact hfailed htid s h
    | finished => exact absurd rfl hfate

theorem kept_finished {victimTid : Pid} {tids : List Pid} (hreliable : Reliable env tid)
    (hspares : tid ∈ victimTid :: tids → tids.Nodup ∧ NotTaken env tid ∧ Takes env tid) :
    ((((Routine.resolveDeadlockStrategy1 .finished victimTid tids).requests env).run s).2.thread tid).Kept := by
  by_cases htid : tid ∈ victimTid :: tids
  . obtain ⟨hnodup, htaken, htakes⟩ := hspares htid
    have hother : (s.thread tid).tracer ≠ .other := by simp [(h halive).1]
    exact Tracee.Watched.kept (ensures_watched hdead htaken hreliable htakes hnodup htid s hother)
  . exact kept_of_not_listed h hdead htid

theorem kept_stopTheWorld {targetPid : Pid} {tids : List Pid} (hreliable : ∀ tid', Reliable env tid')
    (hspares : tid ∈ tids → (s.thread tid).stopped = false ∧ StaysRunning env tid) :
    ((((Routine.stopTheWorld targetPid tids).requests env).run s).2.thread tid).Kept := by
  by_cases htid : tid ∈ tids
  . exact kept_of_detached h halive hreliable htid (hspares htid)
  . have hkeeps : KeepsAll env (At tid fun _ => Tracee.Kept) {tid' | tid' ≠ tid} :=
      keepsAll_of_ne (stable_kept hdead) steady_kept
    have hstop : Preserves (At tid fun _ => Tracee.Kept) ((Routine.stopTheWorld targetPid tids).requests env) :=
      .bind (hkeeps.stopTheWorld (preserves_kill (stable_kept hdead) steady_kept targetPid)
        fun tid' htid' heq => htid (heq ▸ htid')) fun _ => .pure _
    exact hstop s h

theorem kept_resolveGroupDeadlock {targetPid : Pid} {opens : Pid → Bool} {allTids : List Pid}
    (hspares : tid ∈ allTids → (s.thread tid).stopped = false ∧ StaysRunning env tid ∧ Blocks env tid) :
    ((((Routine.resolveGroupDeadlock targetPid opens allTids).requests env).run s).2.thread tid).Kept := by
  by_cases htid : tid ∈ allTids
  . obtain ⟨hstopped, hrunning, hblocks⟩ := hspares htid
    have hkeeps := keepsAll_of_inert (stable_running hrunning (s.thread tid).syscallTracing (s.thread tid).exitKill)
      (steady_of_inert hblocks fun _ _ => Running.inert) fun _ _ => Running.inert
    have hgroup : Preserves (At tid (Running (s.thread tid).syscallTracing (s.thread tid).exitKill))
        ((Routine.resolveGroupDeadlock targetPid opens allTids).requests env) := hkeeps.requests fun _ _ => trivial
    exact kept_of_ours h halive hstopped (hgroup s ⟨⟨(h halive).1, rfl, rfl⟩, hstopped⟩).1
  . have hkeeps : KeepsAll env (At tid fun _ => Tracee.Kept) {tid' | tid' ≠ tid} :=
      keepsAll_of_ne (stable_kept hdead) steady_kept
    have hgroup : Preserves (At tid fun _ => Tracee.Kept)
        ((Routine.resolveGroupDeadlock targetPid opens allTids).requests env) :=
      .bind (hkeeps.resolveGroupDeadlock opens (preserves_kill (stable_kept hdead) steady_kept targetPid)
        fun tid' htid' heq => htid (heq ▸ htid')) fun _ => .pure _
    exact hgroup s h

theorem kept_shutdownClean {tids : List Pid} (hreliable : ∀ tid', Reliable env tid')
    (hspares : tid ∈ tids → (s.thread tid).stopped = false ∧ StaysRunning env tid) :
    ((((Routine.shutdownClean tids).requests env).run s).2.thread tid).Kept := by
  by_cases htid : tid ∈ tids
  . exact kept_of_detached h halive hreliable htid (hspares htid)
  . exact kept_of_not_listed h hdead htid

end step

theorem kept_step {s : Tracing} {e : TraceEnv × Routine} (h : (s.thread tid).Kept)
    (hreliable : ∀ tid', Reliable e.1 tid') (hdead : NotReused e.1 tid) (hspares : Spares tid s e) :
    ((step s e).thread tid).Kept := by
  obtain ⟨env, routine⟩ := e
  dsimp only at hreliable hdead
  cases halive : (s.thread tid).alive with
  | false =>
    have hgone : Preserves (At tid fun _ t => t.alive = false) (routine.requests env) :=
      (keepsAll_dead hdead).requests fun _ _ => trivial
    exact Tracee.kept_of_not_alive (hgone s halive)
  | true =>
    change (((routine.requests env).run s).2.thread tid).Kept
    cases routine with
    | attachAllThreads tids => exact preserves_attachAllThreads (stable_kept hdead) (fun t ht ha => (ht ha).1) tids s h
    | resumeTid tid' => exact kept_resumeTid h halive hdead (hreliable tid) hspares
    | resolveDeadlockStrategy1 fate victimTid tids =>
      cases fate with
      | forkFailed => exact kept_failed h halive hdead (by simp) hreliable hspares
      | waitFailed => exact kept_failed h halive hdead (by simp) hreliable hspares
      | finished => exact kept_finished h halive hdead (hreliable tid) hspares
    | stopTheWorld targetPid tids => exact kept_stopTheWorld h halive hdead hreliable hspares
    | resolveGroupDeadlock targetPid opens allTids => exact kept_resolveGroupDeadlock h halive hdead hspares
    | shutdownClean tids => exact kept_shutdownClean h halive hdead hreliable hspares

/--
A thread that was attached to at the start is seen by the monitor for all of its life, in every run whose routines do
not lose it.
-/
theorem kept_of_run (env : TraceEnv) (tid : Pid) (tids : List Pid) (s : Tracing) (evs : List (TraceEnv × Routine))
    (hreliable : Reliable env tid) (hdead : NotReused env tid) (htaken : NotTaken env tid)
    (htid : tid ∈ tids) (hnobody : (s.thread tid).tracer = .nobody)
    (hevs : ∀ e ∈ evs, (∀ tid', Reliable e.1 tid') ∧ NotReused e.1 tid)
    (hspares : Run.Steps step (Spares tid) ((attachAllThreads env tids).run s).2 evs) :
    Run.States step (fun s => (s.thread tid).Kept) ((attachAllThreads env tids).run s).2 evs := by
  have hstart := (ensures_attachAllThreads hreliable hdead htaken htid s fun _ => hnobody).1
  change (((attachAllThreads env tids).run s).2.thread tid).Kept at hstart
  revert hstart hspares
  generalize ((attachAllThreads env tids).run s).2 = s₁
  intro hspares hstart
  induction evs generalizing s₁ with
  | nil => exact hstart
  | cons e evs ih =>
    obtain ⟨⟨hreliable', hdead'⟩, hevs'⟩ := List.forall_mem_cons.mp hevs
    exact ⟨hstart, ih hevs' (step s₁ e) hspares.2 (kept_step hstart hreliable' hdead' hspares.1)⟩

theorem kept_of_run_still :
    let s : Tracing := { thread := fun _ => ⟨true, .nobody, false, false, false⟩ }
    let evs : List (TraceEnv × Routine) :=
      [(.still, .resolveDeadlockStrategy1 .finished 1 [1, 2]), (.still, .resumeTid 1), (deaf, .attachAllThreads [1])]
    Run.States step (fun s => (s.thread 1).Kept) ((attachAllThreads .still [1]).run s).2 evs := by
  intro s evs
  have hdeaf : ∀ tid', Reliable deaf tid' := fun _ => ⟨fun _ _ => ⟨1, rfl⟩, fun _ h => by cases h⟩
  apply kept_of_run .still 1 [1] s evs (reliable_still 1) (notReused_still 1) (notTaken_still 1) List.mem_cons_self rfl
  . simp only [evs, List.forall_mem_cons, List.not_mem_nil, false_implies, implies_true, and_true]
    exact ⟨⟨reliable_still, notReused_still 1⟩, ⟨reliable_still, notReused_still 1⟩, hdeaf, fun _ _ h => h⟩
  . exact ⟨fun _ => ⟨by decide, notTaken_still 1, takes_still 1⟩, fun _ => .inr (staysRunning_still 1), trivial, trivial⟩

def stopsAt (time₀ : Nat) : TraceEnv where
  moves time _ t := if time = time₀ ∧ t.tracer = .us then { t with stopped := true } else t
  moves_moves time _ t := by
    split
    . exact ⟨.rfl, fun _ => rfl, fun _ => rfl, fun _ _ => rfl, fun _ h => h⟩
    . exact ⟨.rfl, fun _ => rfl, fun _ => rfl, fun _ h => h, fun _ h => h⟩
  reply _ _ _ := .ok 1
  process tid := tid
  takes _ _ _ := true

/--
If a thread that runs already is resumed once more, it may come to its next stop after `PTRACE_SYSCALL` is refused.
Then `PTRACE_CONT` succeeds and the monitor sees no more of its system calls.
-/
theorem lost_between_syscall_and_cont :
    let s : Tracing := { thread := fun _ => ⟨true, .us, false, true, true⟩ }
    (s.thread 1).Kept ∧ ¬(((resumeTid (stopsAt 2) 1).run s).2.thread 1).Kept :=
  ⟨fun _ => ⟨rfl, .inr rfl⟩, fun h => by cases (h rfl).2 with | inl h | inr h => cases h⟩

end Tracing

end DeadlockInterceptor
