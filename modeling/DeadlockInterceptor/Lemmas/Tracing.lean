import DeadlockInterceptor.Impl.TracingResolution
import DeadlockInterceptor.Transition.Preserves

/-!
This module contains the rules for assertions about one thread: what the thread does by itself has to keep them, and the
calls for other threads do not concern them unless they are signals for the process of the thread.
-/

namespace DeadlockInterceptor

/-- Nobody else acts, every call succeeds that Linux permits, and every thread is a process that takes its signals. -/
def TraceEnv.still : TraceEnv where
  moves _ _ t := t
  moves_moves _ _ _ := ⟨.rfl, fun _ => rfl, fun _ => rfl, fun _ h => h, fun _ h => h⟩
  reply _ _ _ := .ok 1
  process tid := tid
  takes _ _ _ := true

namespace Tracee

variable (t : Tracee) (takes : Bool)

@[simp]
theorem signaled_alive : (t.signaled takes).alive = t.alive := by
  unfold signaled
  split_ifs <;> rfl

@[simp]
theorem signaled_tracer : (t.signaled takes).tracer = t.tracer := by
  unfold signaled
  split_ifs <;> rfl

@[simp]
theorem signaled_syscallTracing : (t.signaled takes).syscallTracing = t.syscallTracing := by
  unfold signaled
  split_ifs <;> rfl

@[simp]
theorem signaled_exitKill : (t.signaled takes).exitKill = t.exitKill := by
  unfold signaled
  split_ifs <;> rfl

@[simp]
theorem effect_alive (n : Nat) (c : TraceCall) : (t.effect n takes c).alive = t.alive := by
  cases c with
  | attach | setOptions _ | syscall | cont | detach | interrupt => rfl
  | waitpid _ =>
    simp only [effect]
    split_ifs <;> rfl
  | kill => exact signaled_alive t takes

theorem signaled_of_not_alive (h : t.alive = false) : t.signaled takes = t := by
  simp [signaled, h]

theorem signaled_stopped_of_us (halive : t.alive = true) (hours : t.tracer = .us) :
    (t.signaled takes).stopped = (t.stopped || takes) := by
  simp [signaled, halive, hours]

end Tracee

namespace Tracing

/-- The assertion `A` holds of the thread, it may depend on how often the threads have acted. -/
def At (tid : Pid) (A : Nat → Tracee → Prop) (s : Tracing) : Prop := A s.time (s.thread tid)

def Stable (env : TraceEnv) (tid : Pid) (A : Nat → Tracee → Prop) : Prop :=
  ∀ time t, A time t → A (time + 1) (env.moves time tid t)

def Steady (env : TraceEnv) (tid : Pid) (A : Nat → Tracee → Prop) : Prop :=
  ∀ k tid' time t, A time t → A time (t.signaled (env.takes k tid' tid))

variable {env : TraceEnv} {tid tid' : Pid} {A : Nat → Tracee → Prop}

theorem preserves_pause (h : Stable env tid A) : Preserves (At tid A) (pause env) := .modify fun _ hs => h _ _ hs

theorem preserves_perform (c : TraceCall)
    (h : env.Concerns tid' c tid → ∀ k n time t, A time t → A time (t.effect n (env.takes k tid' tid) c)) :
    Preserves (At tid A) (perform env tid' c) := by
  intro s hs
  change At tid A (perform env tid' c s).2
  unfold perform
  split
  . split
    . change A s.time (if env.Concerns tid' c tid then _ else _)
      split
      . next hconcerns => exact h hconcerns _ _ _ _ hs
      . exact hs
    . exact hs
  . exact hs

theorem preserves_call_of_not_concerns (h : Stable env tid A) {c : TraceCall} (hc : ¬env.Concerns tid' c tid) :
    Preserves (At tid A) (call env tid' c) :=
  .bind (preserves_pause h) fun _ => preserves_perform c fun hconcerns => absurd hconcerns hc

theorem not_concerns_of_ne (hne : tid' ≠ tid) {c : TraceCall} (hc : c ≠ .kill) : ¬env.Concerns tid' c tid := by
  rintro (heq | ⟨heq, -⟩)
  . exact hne heq.symm
  . exact hc heq

theorem not_concerns_of_process_ne (h : env.process tid' ≠ env.process tid) (c : TraceCall) :
    ¬env.Concerns tid' c tid := by
  rintro (heq | ⟨-, heq⟩)
  . exact h (by rw [heq])
  . exact h heq.symm

theorem preserves_kill (h : Stable env tid A) (hsteady : Steady env tid A) (tid' : Pid) :
    Preserves (At tid A) (call env tid' .kill) :=
  .bind (preserves_pause h) fun _ => preserves_perform .kill fun _ k _ => hsteady k tid'

def Called (env : TraceEnv) (tid : Pid) (A : Nat → Tracee → Prop) (c : TraceCall) (r : Reply) (s : Tracing) : Prop :=
  match r with
  | .ok n =>
    ∃ t k, A s.time t ∧ t.permits c = true ∧ s.thread tid = t.effect n (env.takes k tid tid) c ∧
      env.reply k tid c = .ok n
  | .error errno =>
    A s.time (s.thread tid) ∧
      (((s.thread tid).permits c = false ∧ errno = refusal (s.thread tid) c) ∨ ∃ k, env.reply k tid c = .error errno)

theorem ensures_call (h : Stable env tid A) (c : TraceCall) :
    Ensures (At tid A) (call env tid c) (Called env tid A c) := by
  refine .bind (preserves_pause h).ensures fun _ s hs => ?_
  change Called env tid A c (perform env tid c s).1 (perform env tid c s).2
  unfold perform
  split
  . next n hr =>
    split
    . next hpermits => exact ⟨s.thread tid, s.calls, hs, hpermits, if_pos (.inl rfl), hr⟩
    . next hpermits => exact ⟨hs, .inl ⟨Bool.eq_false_iff.mpr hpermits, rfl⟩⟩
  . next errno hr => exact ⟨hs, .inr ⟨s.calls, hr⟩⟩

/-- The rule for a call that keeps the assertion if it succeeds. -/
theorem preserves_call_of_effect (h : Stable env tid A) (c : TraceCall)
    (heffect : ∀ time t n k, A time t → t.permits c = true → A time (t.effect n (env.takes k tid tid) c)) :
    Preserves (At tid A) (call env tid c) := by
  change Ensures _ _ fun _ => At tid A
  refine (ensures_call h c).imp (fun _ hs => hs) fun r s hs => ?_
  cases r with
  | ok n =>
    obtain ⟨t, k, hA, hpermits, hthread, -⟩ := hs
    rw [At, hthread]
    exact heffect _ t n k hA hpermits
  | error errno => exact hs.1

theorem ensures_observe (h : Stable env tid A) :
    Ensures (At tid A) (observe env tid) fun t s => t = s.thread tid ∧ At tid A s :=
  .bind (preserves_pause h).ensures fun _ _ hs => ⟨rfl, hs⟩

theorem ensures_threadExists (h : Stable env tid A) :
    Ensures (At tid A) (threadExists env tid) fun b s => (b = false → (s.thread tid).alive = false) ∧ At tid A s :=
  .bind (ensures_observe h) fun _ => .pure fun _ hs => ⟨fun halive => hs.1 ▸ halive, hs.2⟩

end Tracing

def TraceCall.IsPlain : TraceCall → Prop
  | .attach => False
  | .waitpid _ => False
  | .kill => False
  | _ => True

theorem TraceCall.IsPlain.ne_kill {c : TraceCall} (h : c.IsPlain) : c ≠ .kill := by
  rintro rfl
  exact h

namespace Tracing

variable {env : TraceEnv} {tid tid' : Pid} {A : Nat → Tracee → Prop}

structure Keeps (env : TraceEnv) (I : Tracing → Prop) (tids : Set Pid) : Prop where
  onPause : Preserves I (pause env)
  onCall : ∀ tid ∈ tids, ∀ c : TraceCall, c.IsPlain → Preserves I (call env tid c)

structure KeepsKill (env : TraceEnv) (I : Tracing → Prop) (tids : Set Pid) : Prop extends Keeps env I tids where
  onKill : ∀ tid ∈ tids, Preserves I (call env tid .kill)

structure KeepsAttach (env : TraceEnv) (I : Tracing → Prop) (tids : Set Pid) : Prop extends Keeps env I tids where
  onAttach : ∀ tid ∈ tids, Ensures I (call env tid .attach) fun r s =>
    (r.succeeded = true → ∀ nohang, Preserves I (call env tid (.waitpid nohang))) ∧ I s

structure KeepsAll (env : TraceEnv) (I : Tracing → Prop) (tids : Set Pid) : Prop extends
    KeepsKill env I tids, KeepsAttach env I tids

namespace Keeps

variable {I : Tracing → Prop} {tids : Set Pid}

protected theorem observe (h : Keeps env I tids) (tid : Pid) : Preserves I (observe env tid) :=
  .bind h.onPause fun _ => .bind .get fun _ => .pure _

protected theorem threadExists (h : Keeps env I tids) (tid : Pid) : Preserves I (threadExists env tid) :=
  .bind (h.observe tid) fun _ => .pure _

protected theorem succeeds (h : Keeps env I tids) (htid : tid ∈ tids) {c : TraceCall} (hc : c.IsPlain) :
    Preserves I (succeeds env tid c) :=
  .bind (h.onCall tid htid c hc) fun _ => .pure _

protected theorem resumeTid (h : Keeps env I tids) (htid : tid ∈ tids) : Preserves I (resumeTid env tid) := by
  refine .bind (h.threadExists tid) fun _ => .ite ?_ (.pure _)
  refine .bind (h.succeeds htid trivial) fun _ => .ite ?_ (.pure _)
  exact .bind (h.onCall tid htid .cont trivial) fun _ => .pure _

protected theorem interruptThread (h : Keeps env I tids) (htid : tid ∈ tids) :
    Preserves I (interruptThread env tid) := by
  refine .bind (h.threadExists tid) fun _ => .ite ?_ (.pure _)
  exact .bind (h.onCall tid htid .interrupt trivial) fun _ => .pure _

protected theorem detachThread (h : Keeps env I tids) (htid : tid ∈ tids) : Preserves I (detachThread env tid) := by
  refine .bind (h.threadExists tid) fun _ => .ite ?_ (.pure _)
  exact .bind (h.onCall tid htid .detach trivial) fun _ => .pure _

protected theorem shutdownClean (h : Keeps env I tids) {l : List Pid} (hl : ∀ tid ∈ l, tid ∈ tids) :
    Preserves I (shutdownClean env l) := by
  refine .bind (.forM fun tid htid => h.interruptThread (hl tid htid)) fun _ => ?_
  exact .forM fun tid htid => h.detachThread (hl tid htid)

end Keeps

theorem KeepsKill.succeeds_kill {I : Tracing → Prop} {tids : Set Pid} (h : KeepsKill env I tids) (htid : tid ∈ tids) :
    Preserves I (succeeds env tid .kill) :=
  .bind (h.onKill tid htid) fun _ => .pure _

namespace KeepsAttach

variable {I : Tracing → Prop} {tids : Set Pid}

protected theorem attach_ite {α : Type} (h : KeepsAttach env I tids) (htid : tid ∈ tids) {m n : StateM Tracing α}
    (hm : (∀ nohang, Preserves I (call env tid (.waitpid nohang))) → Preserves I m) (hn : Preserves I n) :
    Preserves I (do if ← succeeds env tid .attach then m else n) := by
  have hattach : Ensures I (succeeds env tid .attach) fun b s =>
      (b = true → ∀ nohang, Preserves I (call env tid (.waitpid nohang))) ∧ I s :=
    .bind (h.onAttach tid htid) fun _ => .pure fun _ hs => hs
  change Ensures I _ fun _ => I
  exact .bind hattach fun _ => .and_left fun hwait => .ite (fun hb => (hm (hwait hb)).ensures) fun _ => hn.ensures

protected theorem attachThread (h : KeepsAttach env I tids) (htid : tid ∈ tids) :
    Preserves I (attachThread env tid) := by
  refine .bind (h.threadExists tid) fun _ => .ite ?_ (.pure _)
  refine h.attach_ite htid (fun hwait => ?_) (.pure _)
  refine .bind (hwait false) fun _ => ?_
  refine .bind (h.onCall tid htid (.setOptions true) trivial) fun _ => ?_
  exact .bind (h.onCall tid htid .syscall trivial) fun _ => .pure _

end KeepsAttach

section others

theorem keepsAttach_of_ne (h : Stable env tid A) : KeepsAttach env (At tid A) {tid' | tid' ≠ tid} where
  onPause := preserves_pause h
  onCall _ hne _ hc := preserves_call_of_not_concerns h (not_concerns_of_ne hne hc.ne_kill)
  onAttach tid' hne := by
    have hconcerns : ¬env.Concerns tid' .attach tid := not_concerns_of_ne hne (by simp)
    have hattach := preserves_call_of_not_concerns h hconcerns
    refine hattach.ensures.imp (fun _ hs => hs) fun _ _ hs => ⟨fun _ nohang => ?_, hs⟩
    exact preserves_call_of_not_concerns h (not_concerns_of_ne hne (by simp))

theorem keepsAll_of_ne (h : Stable env tid A) (hsteady : Steady env tid A) :
    KeepsAll env (At tid A) {tid' | tid' ≠ tid} where
  toKeeps := (keepsAttach_of_ne h).toKeeps
  onKill tid' _ := preserves_kill h hsteady tid'
  onAttach := (keepsAttach_of_ne h).onAttach

theorem keepsAll_of_process_ne (h : Stable env tid A) :
    KeepsAll env (At tid A) {tid' | env.process tid' ≠ env.process tid} where
  onPause := preserves_pause h
  onCall _ hne c _ := preserves_call_of_not_concerns h (not_concerns_of_process_ne hne c)
  onKill _ hne := preserves_call_of_not_concerns h (not_concerns_of_process_ne hne .kill)
  onAttach _ hne := (preserves_call_of_not_concerns h (not_concerns_of_process_ne hne .attach)).ensures.imp
    (fun _ hs => hs) fun _ _ hs =>
      ⟨fun _ nohang => preserves_call_of_not_concerns h (not_concerns_of_process_ne hne (.waitpid nohang)), hs⟩

end others

theorem keepsAll_alive (hmoves : ∀ time t, t.alive = true → (env.moves time tid t).alive = true) :
    KeepsAll env (At tid fun _ t => t.alive = true) Set.univ := by
  have hcall : ∀ tid' c, Preserves (At tid fun _ t => t.alive = true) (call env tid' c) := by
    intro tid' c
    refine .bind (preserves_pause hmoves) fun _ => preserves_perform c fun _ _ _ _ _ h => ?_
    rwa [Tracee.effect_alive]
  exact {
    onPause := preserves_pause hmoves
    onCall := fun tid' _ c _ => hcall tid' c
    onKill := fun tid' _ => hcall tid' .kill
    onAttach := fun tid' _ => (hcall tid' .attach).ensures.imp (fun _ hs => hs)
      fun _ _ hs => ⟨fun _ nohang => hcall tid' (.waitpid nohang), hs⟩ }

end Tracing

end DeadlockInterceptor
