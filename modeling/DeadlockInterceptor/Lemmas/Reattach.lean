import DeadlockInterceptor.Lemmas.TracingRoutines

/-!
This module contains what the result of `reattach_and_resume_tracing` says about the thread, if nothing but its calls
happens to it. It depends on the state of the thread and on the calls that may succeed.
-/

namespace DeadlockInterceptor

/-- The next call of `futex` is seen by the monitor. -/
def Tracee.Monitored (t : Tracee) : Prop := t.tracer = .us ∧ t.stopped = false ∧ t.syscallTracing = true

/-- The last resume was `PTRACE_SYSCALL`, a signal may have stopped the thread since. -/
def Tracee.Resumed (t : Tracee) : Prop := t.tracer = .us ∧ t.syscallTracing = true

theorem Tracee.Monitored.resumed {t : Tracee} (h : t.Monitored) : t.Resumed := ⟨h.1, h.2.2⟩

def Quiet (env : TraceEnv) : Prop := ∀ time tid t, env.moves time tid t = t

def Within (can : TraceCall → Bool) (env : TraceEnv) (tid : Pid) : Prop :=
  ∀ k c n, env.reply k tid c = .ok n → can c = true

namespace Tracing

open reattachAndResumeTracing

def TellsTruth (P : Tracee → Prop) (env : TraceEnv) (tid : Pid) (maxRetries : Nat) (s : Tracing) : Prop :=
  ((reattachAndResumeTracing env tid maxRetries).run s).1 = true →
    P (((reattachAndResumeTracing env tid maxRetries).run s).2.thread tid)

variable {env : TraceEnv} {tid : Pid} {can : TraceCall → Bool} {maxRetries : Nat} {P J : Tracee → Prop}

section honest

/--
An invariant that holds until the thread is resumed with `PTRACE_SYSCALL`, and with which the other calls that make
the function return true do not succeed, or leave the thread with `P`.
-/
structure Honest (P : Tracee → Prop) (can : TraceCall → Bool) (maxRetries : Nat) (J : Tracee → Prop) : Prop where
  syscall : ∀ (t : Tracee) n takes, t.permits .syscall = true → P (t.effect n takes .syscall)
  attach : ∀ t n takes, maxRetries ≠ 0 → J t → can .attach = true → t.permits .attach = true →
    J (t.effect n takes .attach)
  waitpid : (∃ t, J t ∧ can .attach = true ∧ t.permits .attach = true) →
    ∀ nohang t n takes, J t → J (t.effect n takes (.waitpid nohang))
  setOptions : ∀ t n takes exitKill, J t → J (t.effect n takes (.setOptions exitKill))
  cont : ∀ t, J t → can .cont = true → t.permits .cont = false
  detach : ∀ t, J t → can .detach = true → t.permits .detach = false
  kill : ∀ t takes, (maxRetries = 0 → t.tracer ≠ .us) → J t → can .kill = true → J (t.signaled takes)
  lastKill : ∀ t takes, J t → can .kill = true → P (t.signaled takes)

theorem stable_of_quiet (hquiet : Quiet env) (J : Tracee → Prop) : Stable env tid fun _ => J := by
  intro time t h
  rwa [hquiet]

variable (hquiet : Quiet env) (hwithin : Within can env tid)
include hquiet hwithin

theorem ensures_call_within (c : TraceCall) {Q : Reply → Tracing → Prop}
    (hok : ∀ t n takes s, J t → can c = true → t.permits c = true → s.thread tid = t.effect n takes c → Q (.ok n) s)
    (herror : ∀ errno s, J (s.thread tid) → Q (.error errno) s) :
    Ensures (At tid fun _ => J) (call env tid c) Q := by
  refine (ensures_call (stable_of_quiet hquiet J) c).imp (fun _ hs => hs) fun r s hs => ?_
  cases r with
  | ok n =>
    obtain ⟨t, k, hJ, hpermits, hthread, hk⟩ := hs
    exact hok t n _ s hJ (hwithin k c n hk) hpermits hthread
  | error errno => exact herror errno s hs.1

theorem ensures_succeeds_within (c : TraceCall) {Q : Bool → Tracing → Prop}
    (hok : ∀ t n takes s, J t → can c = true → t.permits c = true → s.thread tid = t.effect n takes c → Q true s)
    (herror : ∀ s, J (s.thread tid) → Q false s) : Ensures (At tid fun _ => J) (succeeds env tid c) Q := by
  have hcall : Ensures (At tid fun _ => J) (call env tid c) fun r s => Q r.succeeded s :=
    ensures_call_within hquiet hwithin c hok fun _ => herror
  exact .bind hcall fun r => .pure fun _ hs => hs

theorem ensures_succeeds_refused (c : TraceCall) (hrefused : ∀ t, J t → can c = true → t.permits c = false) :
    Ensures (At tid fun _ => J) (succeeds env tid c) fun b s => b = false ∧ At tid (fun _ => J) s := by
  refine ensures_succeeds_within hquiet hwithin c ?_ fun s hs => ⟨rfl, hs⟩
  intro t _ _ _ hJ hcan hpermits _
  rw [hrefused t hJ hcan] at hpermits
  cases hpermits

theorem preserves_call_within (c : TraceCall)
    (hkeeps : ∀ t n takes, J t → can c = true → t.permits c = true → J (t.effect n takes c)) :
    Preserves (At tid fun _ => J) (call env tid c) := by
  change Ensures _ _ fun _ => At tid fun _ => J
  refine ensures_call_within hquiet hwithin c ?_ ?_
  . intro t n takes s hJ hcan hpermits hthread
    rw [At, hthread]
    exact hkeeps t n takes hJ hcan hpermits
  . exact fun _ _ hs => hs

namespace Honest

variable (h : Honest P can maxRetries J)
include h

theorem ensures_syscall :
    Ensures (At tid fun _ => J) (succeeds env tid .syscall) fun b s =>
      if b = true then P (s.thread tid) else At tid (fun _ => J) s := by
  refine ensures_succeeds_within hquiet hwithin _ ?_ ?_
  . intro t n takes s _ _ hpermits hthread
    rw [if_pos rfl, hthread]
    exact h.syscall t n takes hpermits
  . exact fun s hs => hs

theorem ensures_cont :
    Ensures (At tid fun _ => J) (succeeds env tid .cont) fun b s => b = false ∧ At tid (fun _ => J) s :=
  ensures_succeeds_refused hquiet hwithin .cont h.cont

theorem ensures_detach :
    Ensures (At tid fun _ => J) (succeeds env tid .detach) fun b s => b = false ∧ At tid (fun _ => J) s :=
  ensures_succeeds_refused hquiet hwithin .detach h.detach

theorem preserves_detach : Preserves (At tid fun _ => J) (call env tid .detach) := by
  refine preserves_call_within hquiet hwithin .detach fun t _ _ hJ hcan hpermits => ?_
  rw [h.detach t hJ hcan] at hpermits
  cases hpermits

def Reported (P J : Tracee → Prop) (tid : Pid) : Option Bool → Tracing → Prop
  | none, s => J (s.thread tid)
  | some b, s => b = true → P (s.thread tid)

theorem ensures_retry : Ensures (At tid fun _ => J) (retry env tid) (Reported P J tid) :=
  .bind (h.preserves_detach hquiet hwithin).ensures fun _ => .pure fun _ hs => hs

theorem ensures_syscall_or {α : Type} {a : α} {m : StateM Tracing α} {Q : α → Tracing → Prop}
    (hresumed : ∀ s : Tracing, P (s.thread tid) → Q a s) (hm : Ensures (At tid fun _ => J) m Q) :
    Ensures (At tid fun _ => J) (do if ← succeeds env tid .syscall then return a else m) Q := by
  refine .bind (h.ensures_syscall hquiet hwithin) fun resumed => .ite (fun htrue => ?_) fun hfalse => ?_
  . refine .pure fun s hs => hresumed s ?_
    rwa [if_pos htrue] at hs
  . refine hm.imp (fun s hs => ?_) fun _ _ hs => hs
    rwa [if_neg hfalse] at hs

theorem ensures_syscall_or_retry :
    Ensures (At tid fun _ => J)
      (do if ← succeeds env tid .syscall then return some true else retry env tid) (Reported P J tid) :=
  h.ensures_syscall_or hquiet hwithin (fun _ hs _ => hs) (h.ensures_retry hquiet hwithin)

theorem ensures_attachFailed (hretries : maxRetries ≠ 0) (errno : Nat) :
    Ensures (At tid fun _ => J) (attachFailed env tid errno) (Reported P J tid) := by
  have hkeeps : Keeps env (At tid fun _ => J) ∅ := ⟨preserves_pause (stable_of_quiet hquiet J), fun _ h => h.elim⟩
  have hretry := h.ensures_retry hquiet hwithin
  refine .ite (fun _ => ?_) fun _ => .ite (fun _ => .pure fun _ _ hfalse => by cases hfalse) fun _ => ?_
  . have hkill : Preserves (At tid fun _ => J) (succeeds env tid .kill) := by
      refine .bind (preserves_call_within hquiet hwithin .kill fun t n takes hJ hcan _ => ?_) fun _ => .pure _
      exact h.kill t takes (fun hzero => absurd hzero hretries) hJ hcan
    have hrest : Ensures (At tid fun _ => J)
        (do
          if ← succeeds env tid .kill then
            if ← succeeds env tid .syscall then return some true else retry env tid
          else
            retry env tid) (Reported P J tid) :=
      .bind hkill.ensures fun _ => .ite (fun _ => h.ensures_syscall_or_retry hquiet hwithin) fun _ => hretry
    refine .bind (hkeeps.getTracer tid).ensures fun tracer => .ite (fun _ => ?_) fun _ => ?_
    . exact h.ensures_syscall_or hquiet hwithin (fun _ hs _ => hs) hrest
    . have hno : Ensures (At tid fun _ => J) (pure false) fun b s => b = false ∧ At tid (fun _ => J) s :=
        .pure fun _ hs => ⟨rfl, hs⟩
      exact .bind_eq hno hrest
  . exact .pure fun _ hs => hs

theorem ensures_attempt (hretries : maxRetries ≠ 0) :
    Ensures (At tid fun _ => J) (attempt env tid) (Reported P J tid) := by
  have hretry := h.ensures_retry hquiet hwithin
  have hattach : Ensures (At tid fun _ => J) (call env tid .attach) fun r s =>
      (r.succeeded = true → ∃ t, J t ∧ can .attach = true ∧ t.permits .attach = true) ∧ At tid (fun _ => J) s := by
    refine ensures_call_within hquiet hwithin _ ?_ ?_
    . intro t n takes s hJ hcan hpermits hthread
      refine ⟨fun _ => ⟨t, hJ, hcan, hpermits⟩, ?_⟩
      rw [At, hthread]
      exact h.attach t n takes hretries hJ hcan hpermits
    . exact fun _ _ hs => ⟨fun hfalse => absurd hfalse Bool.false_ne_true, hs⟩
  refine .bind hattach fun r => .and_left fun hpossible => ?_
  cases r with
  | ok n =>
    have hwait : ∀ nohang, Preserves (At tid fun _ => J) (call env tid (.waitpid nohang)) := fun nohang =>
      preserves_call_within hquiet hwithin _ fun t n takes hJ _ _ => h.waitpid (hpossible rfl) nohang t n takes hJ
    have hset : Preserves (At tid fun _ => J) (succeeds env tid (.setOptions false)) :=
      .bind (preserves_call_within hquiet hwithin _ fun t n takes hJ _ _ => h.setOptions t n takes false hJ)
        fun _ => .pure _
    refine .bind (KeepsAll.waitForStop hwait).ensures fun _ => .ite (fun _ => ?_) fun _ => hretry
    exact .bind hset.ensures fun _ => .ite (fun _ => h.ensures_syscall_or_retry hquiet hwithin) fun _ => hretry
  | error errno => exact h.ensures_attachFailed hquiet hwithin hretries errno

theorem ensures_attempts : Ensures (At tid fun _ => J) (attempts env tid maxRetries) (Reported P J tid) := by
  have hall : ∀ k ≤ maxRetries, Ensures (At tid fun _ => J) (attempts env tid k) (Reported P J tid) := by
    intro k
    induction k with
    | zero => exact fun _ => .pure fun _ hs => hs
    | succ k ih =>
      intro hk
      refine .bind (h.ensures_attempt hquiet hwithin (by omega)) fun result => ?_
      cases result with
      | some result => exact .pure fun _ hs => hs
      | none => exact ih (by omega)
  exact hall maxRetries (Nat.le_refl maxRetries)

def Truthful (P : Tracee → Prop) (tid : Pid) (result : Bool) (s : Tracing) : Prop :=
  result = true → P (s.thread tid)

omit hquiet hwithin h in
theorem truthful_false {I : Tracing → Prop} : Ensures I (pure false) (Truthful P tid) :=
  .pure fun _ _ hfalse => by cases hfalse

theorem ensures_lastResort : Ensures (At tid fun _ => J) (lastResort env tid) (Truthful P tid) := by
  have hkill : Ensures (At tid fun _ => J) (succeeds env tid .kill) fun b s =>
      if b = true then P (s.thread tid) else At tid (fun _ => J) s := by
    refine ensures_succeeds_within hquiet hwithin _ ?_ ?_
    . intro t n takes s hJ hcan _ hthread
      rw [if_pos rfl, hthread]
      exact h.lastKill t takes hJ hcan
    . exact fun _ hs => hs
  refine .bind_eq (h.ensures_cont hquiet hwithin) ?_
  refine .bind hkill fun killed => .ite (fun hkilled => .pure fun _ hs _ => ?_) fun hkilled => ?_
  . rwa [if_pos hkilled] at hs
  . refine .bind_eq ((h.ensures_detach hquiet hwithin).imp (fun _ hs => ?_) fun _ _ hs => hs) truthful_false
    rwa [if_neg hkilled] at hs

theorem ensures_reattach : Ensures (At tid fun _ => J) (reattach env tid maxRetries) (Truthful P tid) := by
  refine .bind (h.ensures_attempts hquiet hwithin) fun result => ?_
  cases result with
  | some result => exact .pure fun _ hs => hs
  | none => exact h.ensures_lastResort hquiet hwithin

theorem ensures_kill_reattach :
    Ensures (At tid fun _ t => J t ∧ t.tracer ≠ .us)
      (do let _ ← call env tid .kill; reattach env tid maxRetries) (Truthful P tid) := by
  have hkill : Ensures (At tid fun _ t => J t ∧ t.tracer ≠ .us) (call env tid .kill) fun _ => At tid fun _ => J := by
    refine ensures_call_within hquiet hwithin _ ?_ ?_
    . intro t n takes s hJ hcan _ hthread
      rw [At, hthread]
      exact h.kill t takes (fun _ => hJ.2) hJ.1 hcan
    . exact fun _ s hs => hs.1
  exact .bind hkill fun _ => h.ensures_reattach hquiet hwithin

theorem ensures_actUpon (stopped : Bool) (tracer : Option Tracer) :
    Ensures (At tid fun _ t => J t ∧ ∀ x, tracer = some x → t.tracer = x)
      (actUpon env tid maxRetries stopped tracer) (Truthful P tid) := by
  have hreattach := h.ensures_reattach hquiet hwithin
  have hkill := h.ensures_kill_reattach hquiet hwithin
  match tracer with
  | some .us =>
    refine Ensures.imp (P := At tid fun _ => J) ?_ (fun _ hs => hs.1) fun _ _ hs => hs
    refine h.ensures_syscall_or hquiet hwithin (fun _ hs _ => hs) ?_
    refine .bind_eq (h.ensures_cont hquiet hwithin) ?_
    exact .bind (h.preserves_detach hquiet hwithin).ensures fun _ => hreattach
  | some .other =>
    have hdetach : Ensures (At tid fun _ t => J t ∧ ∀ x, some Tracer.other = some x → t.tracer = x)
        (succeeds env tid .detach) fun b s => b = false ∧ At tid (fun _ t => J t ∧ t.tracer ≠ .us) s := by
      refine (ensures_succeeds_refused hquiet hwithin .detach fun t hJ => h.detach t hJ.1).imp (fun _ hs => hs) ?_
      exact fun b s hs => ⟨hs.1, hs.2.1, by simp [hs.2.2 _ rfl]⟩
    exact .bind_eq hdetach hkill
  | some .nobody =>
    refine .ite (fun _ => ?_) fun _ => ?_
    . exact hkill.imp (fun s hs => ⟨hs.1, by simp [hs.2 _ rfl]⟩) fun _ _ hs => hs
    . exact hreattach.imp (fun s hs => hs.1) fun _ _ hs => hs
  | none => exact hreattach.imp (fun s hs => hs.1) fun _ _ hs => hs

/-- With such an invariant the function tells the truth. -/
theorem tellsTruth {s : Tracing} (hJ : J (s.thread tid)) : TellsTruth P env tid maxRetries s := by
  have hstable : Stable env tid fun _ => J := stable_of_quiet hquiet J
  have hensures : Ensures (At tid fun _ => J) (reattachAndResumeTracing env tid maxRetries) (Truthful P tid) := by
    refine .bind (ensures_threadExists hstable) fun _ => .ite (fun _ => truthful_false) fun _ => ?_
    have htracer : Ensures (At tid fun _ => J) (getTracer env tid) fun tracer =>
        At tid fun _ t => J t ∧ ∀ x, tracer = some x → t.tracer = x := by
      refine .bind (ensures_observe hstable) fun t => .pure fun s hs => ⟨hs.2, fun x hx => ?_⟩
      rw [← hs.1]
      cases halive : t.alive with
      | true => simpa [halive] using hx
      | false => simp [halive] at hx
    refine .bind (htracer.imp (fun _ hs => hs.2) fun _ _ hs => hs) fun tracer => ?_
    have hkeeps : Keeps env (At tid fun _ t => J t ∧ ∀ x, tracer = some x → t.tracer = x) ∅ :=
      ⟨preserves_pause (stable_of_quiet hquiet _), fun _ h => h.elim⟩
    exact .bind (hkeeps.isThreadStopped tid).ensures fun stopped => h.ensures_actUpon hquiet hwithin stopped tracer
  exact hensures s hJ

end Honest

end honest

section instances

theorem monitored_effect_syscall (t : Tracee) (n : Nat) (takes : Bool) (hpermits : t.permits .syscall = true) :
    (t.effect n takes .syscall).Monitored := by
  simp only [Tracee.permits, Bool.and_eq_true, decide_eq_true_eq] at hpermits
  exact ⟨hpermits.1.2, rfl, rfl⟩

theorem permits_of_not_stopped {t : Tracee} (hstopped : t.stopped = false) {c : TraceCall}
    (hc : c = .cont ∨ c = .detach) : t.permits c = false := by
  rcases hc with rfl | rfl <;> simp [Tracee.permits, hstopped]

theorem permits_of_tracer_ne {t : Tracee} (htracer : t.tracer ≠ .us) {c : TraceCall}
    (hc : c = .cont ∨ c = .detach) : t.permits c = false := by
  rcases hc with rfl | rfl <;> simp [Tracee.permits, htracer]

theorem not_permits_attach {t : Tracee} (htracer : t.tracer ≠ .nobody) : ¬t.permits .attach = true := by
  simp [Tracee.permits, htracer]

theorem effect_waitpid_tracer (t : Tracee) (n : Nat) (takes nohang : Bool) :
    (t.effect n takes (.waitpid nohang)).tracer = t.tracer := by
  simp only [Tracee.effect]
  split_ifs <;> rfl

theorem honest_running (hkill : can .kill = false) :
    Honest Tracee.Monitored can maxRetries fun t => t.tracer = .us ∧ t.stopped = false where
  syscall := monitored_effect_syscall
  attach t _ _ _ h _ hpermits := absurd hpermits (not_permits_attach (by simp [h.1]))
  waitpid := fun ⟨t, h, _, hpermits⟩ => absurd hpermits (not_permits_attach (by simp [h.1]))
  setOptions _ _ _ _ h := h
  cont _ h _ := permits_of_not_stopped h.2 (.inl rfl)
  detach _ h _ := permits_of_not_stopped h.2 (.inr rfl)
  kill _ _ _ _ hcan := absurd hcan (Bool.eq_false_iff.mp hkill)
  lastKill _ _ _ hcan := absurd hcan (Bool.eq_false_iff.mp hkill)

theorem honest_resuming (hkill : can .kill = false) (hcont : can .cont = false) (hdetach : can .detach = false) :
    Honest Tracee.Monitored can maxRetries fun _ => True where
  syscall := monitored_effect_syscall
  attach _ _ _ _ _ _ _ := trivial
  waitpid _ _ _ _ _ _ := trivial
  setOptions _ _ _ _ _ := trivial
  cont _ _ hcan := absurd hcan (Bool.eq_false_iff.mp hcont)
  detach _ _ hcan := absurd hcan (Bool.eq_false_iff.mp hdetach)
  kill _ _ _ _ _ := trivial
  lastKill _ _ _ hcan := absurd hcan (Bool.eq_false_iff.mp hkill)

theorem honest_untraced (hkill : can .kill = false) {tracer : Tracer} (htracer : tracer ≠ .us)
    (hattach : maxRetries = 0 ∨ can .attach = false ∨ tracer ≠ .nobody) :
    Honest Tracee.Monitored can maxRetries fun t => t.tracer = tracer where
  syscall := monitored_effect_syscall
  attach t _ _ hretries h hcan hpermits := by
    rcases hattach with hzero | hcannot | hnobody
    . exact absurd hzero hretries
    . exact absurd hcan (Bool.eq_false_iff.mp hcannot)
    . exact absurd hpermits (not_permits_attach (by rwa [h]))
  waitpid _ nohang t n takes h := by rwa [effect_waitpid_tracer]
  setOptions _ _ _ _ h := h
  cont _ h _ := permits_of_tracer_ne (by rwa [h]) (.inl rfl)
  detach _ h _ := permits_of_tracer_ne (by rwa [h]) (.inr rfl)
  kill _ _ _ _ hcan := absurd hcan (Bool.eq_false_iff.mp hkill)
  lastKill _ _ _ hcan := absurd hcan (Bool.eq_false_iff.mp hkill)

theorem honest_resumed (hcont : can .cont = false) (hdetach : can .detach = false) :
    Honest Tracee.Resumed can maxRetries Tracee.Resumed where
  syscall t n takes hpermits := (monitored_effect_syscall t n takes hpermits).resumed
  attach t _ _ _ h _ hpermits := absurd hpermits (not_permits_attach (by simp [h.1]))
  waitpid := fun ⟨t, h, _, hpermits⟩ => absurd hpermits (not_permits_attach (by simp [h.1]))
  setOptions _ _ _ _ h := h
  cont _ _ hcan := absurd hcan (Bool.eq_false_iff.mp hcont)
  detach _ _ hcan := absurd hcan (Bool.eq_false_iff.mp hdetach)
  kill t takes _ h _ := by simpa [Tracee.Resumed] using h
  lastKill t takes h _ := by simpa [Tracee.Resumed] using h

theorem honest_zero : Honest Tracee.Resumed can 0 Tracee.Monitored where
  syscall t n takes hpermits := (monitored_effect_syscall t n takes hpermits).resumed
  attach _ _ _ hretries := absurd rfl hretries
  waitpid := fun ⟨t, h, _, hpermits⟩ => absurd hpermits (not_permits_attach (by simp [h.1]))
  setOptions _ _ _ _ h := h
  cont _ h _ := permits_of_not_stopped h.2.1 (.inl rfl)
  detach _ h _ := permits_of_not_stopped h.2.1 (.inr rfl)
  kill t takes hours h _ := absurd h.1 (hours rfl)
  lastKill t takes h _ := by simpa [Tracee.Resumed] using h.resumed

end instances

def AlwaysTrue (P : Tracee → Prop) (can : TraceCall → Bool) (tid : Pid) (maxRetries : Nat) (s : Tracing) : Prop :=
  ∀ env, Quiet env → Within can env tid → TellsTruth P env tid maxRetries s

/-- The thread is gone, or no call but `PTRACE_SYSCALL` can make the function return true. -/
def OnlySyscall (can : TraceCall → Bool) (t : Tracee) (maxRetries : Nat) : Prop :=
  t.alive = true →
    can .kill = false ∧
      match t.tracer with
      | .us => t.stopped = false ∨ (can .cont = false ∧ can .detach = false)
      | .other => True
      | .nobody => maxRetries = 0 ∨ can .attach = false ∨ (can .cont = false ∧ can .detach = false)

def StaysResumed (can : TraceCall → Bool) (t : Tracee) (maxRetries : Nat) : Prop :=
  t.Resumed ∧ ((can .cont = false ∧ can .detach = false) ∨ (t.stopped = false ∧ maxRetries = 0))

theorem AlwaysTrue.imp {P Q : Tracee → Prop} (hPQ : ∀ t, P t → Q t) {s : Tracing}
    (h : AlwaysTrue P can tid maxRetries s) : AlwaysTrue Q can tid maxRetries s :=
  fun env hquiet hwithin htrue => hPQ _ (h env hquiet hwithin htrue)

theorem tellsTruth_of_not_alive (hquiet : Quiet env) {s : Tracing} (halive : (s.thread tid).alive = false) :
    TellsTruth P env tid maxRetries s := by
  have hstable : Stable env tid fun _ t => t.alive = false := stable_of_quiet hquiet fun t => t.alive = false
  have hexists : Ensures (At tid fun _ t => t.alive = false) (threadExists env tid) fun b s =>
      b = false ∧ At tid (fun _ t => t.alive = false) s :=
    .bind (ensures_observe hstable) fun _ => .pure fun _ hs => ⟨hs.1 ▸ hs.2, hs.2⟩
  have hfalse : Ensures (At tid fun _ t => t.alive = false) (reattachAndResumeTracing env tid maxRetries) fun b _ =>
      b = false := .bind_eq hexists (.pure fun _ _ => rfl)
  exact fun htrue => absurd (hfalse s halive) (by simp [htrue])

theorem alwaysTrue_of_onlySyscall {s : Tracing} (h : OnlySyscall can (s.thread tid) maxRetries) :
    AlwaysTrue Tracee.Monitored can tid maxRetries s := by
  intro env hquiet hwithin
  cases halive : (s.thread tid).alive with
  | false => exact tellsTruth_of_not_alive hquiet halive
  | true =>
    obtain ⟨hkill, h⟩ := h halive
    cases htracer : (s.thread tid).tracer with
    | us =>
      simp only [htracer] at h
      rcases h with hrunning | ⟨hcont, hdetach⟩
      . exact (honest_running hkill).tellsTruth hquiet hwithin ⟨htracer, hrunning⟩
      . exact (honest_resuming hkill hcont hdetach).tellsTruth hquiet hwithin trivial
    | other =>
      exact (honest_untraced hkill (by decide) (.inr (.inr (by decide)))).tellsTruth hquiet hwithin htracer
    | nobody =>
      simp only [htracer] at h
      rcases h with hzero | hattach | ⟨hcont, hdetach⟩
      . exact (honest_untraced hkill (by decide) (.inl hzero)).tellsTruth hquiet hwithin htracer
      . exact (honest_untraced hkill (by decide) (.inr (.inl hattach))).tellsTruth hquiet hwithin htracer
      . exact (honest_resuming hkill hcont hdetach).tellsTruth hquiet hwithin trivial

theorem alwaysTrue_of_staysResumed {s : Tracing} (h : StaysResumed can (s.thread tid) maxRetries) :
    AlwaysTrue Tracee.Resumed can tid maxRetries s := by
  intro env hquiet hwithin
  rcases h with ⟨hresumed, ⟨hcont, hdetach⟩ | ⟨hstopped, rfl⟩⟩
  . exact (honest_resumed hcont hdetach).tellsTruth hquiet hwithin hresumed
  . exact honest_zero.tellsTruth hquiet hwithin ⟨hresumed.1, hstopped, hresumed.2⟩

section lies

/-- The calls from the `base`-th one on succeed if `succeed` tells so, all others fail with `errno`. -/
def lying (base errno : Nat) (succeed : Nat → TraceCall → Bool) : TraceEnv :=
  { TraceEnv.still with reply := fun k _ c => if succeed (k - base) c then .ok 1 else .error errno }

def Lie (P : Tracee → Prop) (tid : Pid) (result : Bool) (s : Tracing) : Prop := result = true ∧ ¬P (s.thread tid)

structure Is (tid : Pid) (base : Nat) (t : Tracee) (k : Nat) (s : Tracing) : Prop where
  thread : s.thread tid = t
  calls : s.calls = base + k

variable {base errno k n : Nat} {succeed : Nat → TraceCall → Bool} {t : Tracee} {c : TraceCall}

theorem quiet_lying (base errno : Nat) (succeed : Nat → TraceCall → Bool) : Quiet (lying base errno succeed) :=
  fun _ _ _ => rfl

theorem within_lying (h : ∀ k c, succeed k c = true → can c = true) : Within can (lying base errno succeed) tid := by
  intro k c n hok
  simp only [lying] at hok
  split at hok
  . next hsucceed => exact h _ c hsucceed
  . cases hok

theorem ensures_pause_is : Ensures (Is tid base t k) (pause (lying base errno succeed)) fun _ => Is tid base t k :=
  .modify fun _ hs => ⟨hs.thread, hs.calls⟩

theorem ensures_call_lying (c : TraceCall) :
    Ensures (Is tid base t k) (call (lying base errno succeed) tid c) fun r s =>
      if succeed k c then
        if t.permits c then r = .ok 1 ∧ Is tid base (t.effect 1 true c) (k + 1) s
        else r = .error (refusal t c) ∧ Is tid base t (k + 1) s
      else r = .error errno ∧ Is tid base t (k + 1) s := by
  refine .bind ensures_pause_is fun _ => ?_
  rintro s ⟨rfl, hcalls⟩
  have hk : s.calls - base = k := by omega
  have hnext : s.calls + 1 = base + (k + 1) := by omega
  simp only [perform, lying, hk, StateT.run]
  cases succeed k c with
  | true =>
    cases hpermits : (s.thread tid).permits c with
    | true => exact ⟨rfl, if_pos (.inl rfl), hnext⟩
    | false => exact ⟨rfl, rfl, hnext⟩
  | false => exact ⟨rfl, rfl, hnext⟩

theorem ensures_call_ok (hsucceed : succeed k c = true) (hpermits : t.permits c = true) :
    Ensures (Is tid base t k) (call (lying base errno succeed) tid c) fun r s =>
      r = .ok 1 ∧ Is tid base (t.effect 1 true c) (k + 1) s := by
  refine (ensures_call_lying c).imp (fun _ hs => hs) fun r s hs => ?_
  rwa [if_pos hsucceed, if_pos hpermits] at hs

theorem ensures_succeeds_ok (hsucceed : succeed k c = true) (hpermits : t.permits c = true) :
    Ensures (Is tid base t k) (succeeds (lying base errno succeed) tid c) fun b s =>
      b = true ∧ Is tid base (t.effect 1 true c) (k + 1) s :=
  .bind_eq (ensures_call_ok hsucceed hpermits) (.pure fun _ hs => ⟨rfl, hs⟩)

theorem ensures_call_error (hsucceed : succeed k c = false) :
    Ensures (Is tid base t k) (call (lying base errno succeed) tid c) fun r s =>
      r = .error errno ∧ Is tid base t (k + 1) s := by
  refine (ensures_call_lying c).imp (fun _ hs => hs) fun r s hs => ?_
  rwa [if_neg (by simp [hsucceed])] at hs

theorem ensures_call_fails (h : succeed k c = false ∨ t.permits c = false) :
    Ensures (Is tid base t k) (call (lying base errno succeed) tid c) fun r s =>
      r.succeeded = false ∧ Is tid base t (k + 1) s := by
  refine (ensures_call_lying c).imp (fun _ hs => hs) fun r s hs => ?_
  split at hs
  . next hsucceed =>
    rw [if_neg (by simp [h.resolve_left (by simp [hsucceed])])] at hs
    exact ⟨by rw [hs.1]; rfl, hs.2⟩
  . exact ⟨by rw [hs.1]; rfl, hs.2⟩

theorem ensures_succeeds_error (h : succeed k c = false ∨ t.permits c = false) :
    Ensures (Is tid base t k) (succeeds (lying base errno succeed) tid c) fun b s =>
      b = false ∧ Is tid base t (k + 1) s :=
  .bind (ensures_call_fails h) fun _ => .pure fun _ hs => hs

theorem ensures_observe_is :
    Ensures (Is tid base t k) (observe (lying base errno succeed) tid) fun t' s => t' = t ∧ Is tid base t k s :=
  .bind ensures_pause_is fun _ _ hs => ⟨hs.thread, hs⟩

theorem ensures_getTracer_is (halive : t.alive = true) :
    Ensures (Is tid base t k) (getTracer (lying base errno succeed) tid) fun tracer s =>
      tracer = some t.tracer ∧ Is tid base t k s :=
  .bind ensures_observe_is fun _ => .pure fun _ hs => ⟨by rw [hs.1, if_pos halive], hs.2⟩

theorem lies_of_actUpon (halive : t.alive = true)
    (h : Ensures (Is tid base t 0) (actUpon (lying base errno succeed) tid maxRetries
      (t.alive && t.stopped && t.tracer = .nobody) (some t.tracer)) (Lie P tid)) :
    Ensures (Is tid base t 0) (reattachAndResumeTracing (lying base errno succeed) tid maxRetries) (Lie P tid) := by
  have hexists : Ensures (Is tid base t 0) (threadExists (lying base errno succeed) tid) fun b s =>
      b = true ∧ Is tid base t 0 s := .bind ensures_observe_is fun _ => .pure fun _ hs => ⟨by rw [hs.1, halive], hs.2⟩
  have hstopped : Ensures (Is tid base t 0) (isThreadStopped (lying base errno succeed) tid) fun b s =>
      b = (t.alive && t.stopped && t.tracer = .nobody) ∧ Is tid base t 0 s :=
    .bind ensures_observe_is fun _ => .pure fun _ hs => ⟨by rw [hs.1], hs.2⟩
  exact .bind_eq hexists (.bind_eq (ensures_getTracer_is halive) (.bind_eq hstopped h))

theorem ensures_attempts_none {env : TraceEnv} {A : Tracing → Prop}
    (h : Ensures A (attempt env tid) fun r s => r = none ∧ A s) (n : Nat) :
    Ensures A (attempts env tid n) fun r s => r = none ∧ A s := by
  induction n with
  | zero => exact .pure fun _ hs => ⟨rfl, hs⟩
  | succ n ih => exact .bind_eq h ih

def From (tid : Pid) (base : Nat) (t : Tracee) (k : Nat) (s : Tracing) : Prop := ∃ j, k ≤ j ∧ Is tid base t j s

theorem Is.toFrom {s : Tracing} (h : Is tid base t k s) : From tid base t k s := ⟨k, Nat.le_refl k, h⟩

theorem lies_of_attempts {env : TraceEnv} {A B : Tracing → Prop} {n : Nat}
    (hattempts : Ensures A (attempts env tid n) fun r s => r = none ∧ B s)
    (hlast : Ensures B (lastResort env tid) (Lie P tid)) : Ensures A (reattach env tid n) (Lie P tid) :=
  .bind_eq hattempts hlast

theorem ensures_attempts_eio (hattach : ∀ j, k ≤ j → succeed j .attach = false) (n : Nat) :
    Ensures (From tid base t k) (attempts (lying base eio succeed) tid n) fun r s =>
      r = none ∧ From tid base t k s := by
  apply ensures_attempts_none
  rintro s ⟨j, hj, hs⟩
  have hattempt : Ensures (Is tid base t j) (attempt (lying base eio succeed) tid) fun r s =>
      r = none ∧ Is tid base t (j + 1) s :=
    .bind_eq (ensures_call_error (hattach j hj)) (.pure fun _ hs => ⟨rfl, hs⟩)
  exact ⟨(hattempt s hs).1, j + 1, by omega, (hattempt s hs).2⟩

theorem lies_reattach (hattach : ∀ j, k ≤ j → succeed j .attach = false)
    (h : ∀ j, k ≤ j → Ensures (Is tid base t j) (lastResort (lying base eio succeed) tid) (Lie P tid)) (n : Nat) :
    Ensures (Is tid base t k) (reattach (lying base eio succeed) tid n) (Lie P tid) := by
  apply lies_of_attempts ((ensures_attempts_eio hattach n).imp (fun _ hs => hs.toFrom) fun _ _ hs => hs)
  rintro s ⟨j, hj, hs⟩
  exact h j hj s hs

variable (hP : ∀ t, P t → t.Resumed)
include hP

theorem lies_cont (hcont : succeed k .cont = true) (hpermits : t.permits .cont = true) :
    Ensures (Is tid base t k) (lastResort (lying base errno succeed) tid) (Lie P tid) := by
  refine .bind_eq (ensures_succeeds_ok hcont hpermits) (.pure fun s hs => ⟨rfl, fun hp => ?_⟩)
  rw [hs.thread] at hp
  exact Bool.false_ne_true (hP _ hp).2

omit hP in
theorem lies_kill (hcont : succeed k .cont = false ∨ t.permits .cont = false) (hkill : succeed (k + 1) .kill = true)
    (halive : t.alive = true) (hlie : ¬P (t.signaled true)) :
    Ensures (Is tid base t k) (lastResort (lying base errno succeed) tid) (Lie P tid) := by
  refine .bind_eq (ensures_succeeds_error hcont) ?_
  refine .bind_eq (ensures_succeeds_ok hkill halive) (.pure fun s hs => ⟨rfl, ?_⟩)
  rwa [hs.thread]

theorem lies_detach (hcont : succeed k .cont = false) (hkill : ∀ j, succeed j .kill = false)
    (hdetach : succeed (k + 2) .detach = true) (hpermits : t.permits .detach = true) :
    Ensures (Is tid base t k) (lastResort (lying base errno succeed) tid) (Lie P tid) := by
  refine .bind_eq (ensures_succeeds_error (.inl hcont)) ?_
  refine .bind_eq (ensures_succeeds_error (.inl (hkill _))) ?_
  refine .bind_eq (ensures_succeeds_ok hdetach hpermits) ?_
  refine .bind_eq (ensures_call_error (hkill _)) (.pure fun s hs => ⟨rfl, fun hp => ?_⟩)
  rw [hs.thread] at hp
  cases (hP _ hp).1

def only (c₀ : TraceCall) (k₀ k : Nat) (c : TraceCall) : Bool := c = c₀ ∧ k₀ ≤ k

theorem lies_kill_only (halive : t.alive = true) (hlie : ¬P (t.signaled true)) (maxRetries : Nat) :
    Ensures (Is tid base t 0) (reattachAndResumeTracing (lying base eio (only .kill 0)) tid maxRetries)
      (Lie P tid) := by
  have hsucceed : ∀ k, only .kill 0 k .kill = true := fun k => decide_eq_true ⟨rfl, Nat.zero_le k⟩
  have hreattach : ∀ (t' : Tracee) k, t'.alive = true → ¬P (t'.signaled true) →
      Ensures (Is tid base t' k) (reattach (lying base eio (only .kill 0)) tid maxRetries) (Lie P tid) :=
    fun t' k halive hlie => lies_reattach (fun _ _ => rfl)
      (fun _ _ => lies_kill (.inl rfl) (hsucceed _) halive hlie) maxRetries
  have hkill : t.tracer ≠ .us → ∀ k, Ensures (Is tid base t k)
      (do
        let _ ← call (lying base eio (only .kill 0)) tid .kill
        reattach (lying base eio (only .kill 0)) tid maxRetries) (Lie P tid) := by
    intro hother k
    refine .bind_eq (ensures_call_ok (hsucceed k) halive) (hreattach _ _ ?_ fun hp => hother ?_)
    . rwa [Tracee.effect_alive]
    . simpa [Tracee.effect] using (hP _ hp).1
  apply lies_of_actUpon halive
  cases htracer : t.tracer with
  | us =>
    refine .bind_eq (ensures_succeeds_error (.inl rfl)) ?_
    refine .bind_eq (ensures_succeeds_error (.inl rfl)) ?_
    exact .bind_eq (ensures_call_error rfl) (hreattach t _ halive hlie)
  | other => exact .bind_eq (ensures_succeeds_error (.inl rfl)) (hkill (by simp [htracer]) _)
  | nobody => exact .ite (fun _ => hkill (by simp [htracer]) 0) fun _ => hreattach t 0 halive hlie

theorem lies_cont_us (halive : t.alive = true) (htracer : t.tracer = .us) (hstopped : t.stopped = true)
    (maxRetries : Nat) :
    Ensures (Is tid base t 0) (reattachAndResumeTracing (lying base eio (only .cont 0)) tid maxRetries)
      (Lie P tid) := by
  apply lies_of_actUpon halive
  rw [htracer]
  refine .bind_eq (ensures_succeeds_error (.inl rfl)) ?_
  refine .bind_eq (ensures_succeeds_ok (decide_eq_true ⟨rfl, Nat.zero_le _⟩) ?_) (.pure fun s hs => ⟨rfl, fun hp => ?_⟩)
  . simp [Tracee.permits, halive, htracer, hstopped]
  . rw [hs.thread] at hp
    exact Bool.false_ne_true (hP _ hp).2

theorem lies_detach_us (halive : t.alive = true) (htracer : t.tracer = .us) (hstopped : t.stopped = true)
    (maxRetries : Nat) :
    Ensures (Is tid base t 0) (reattachAndResumeTracing (lying base eio (only .detach 3)) tid maxRetries)
      (Lie P tid) := by
  apply lies_of_actUpon halive
  rw [htracer]
  refine .bind_eq (ensures_succeeds_error (.inl rfl)) ?_
  refine .bind_eq (ensures_succeeds_error (.inl rfl)) ?_
  refine .bind_eq (ensures_call_error rfl) ?_
  refine lies_reattach (fun _ _ => rfl) (fun j hj => ?_) maxRetries
  refine lies_detach hP rfl (fun _ => rfl) (decide_eq_true ⟨rfl, by omega⟩) ?_
  simp [Tracee.permits, halive, htracer, hstopped]

/--
The first attempt attaches and gets no further, the others fail at once. What is left is traced and stopped, and the
call `c₀` comes to it as the last resort.
-/
def stuckPattern (c₀ : TraceCall) (k : Nat) (c : TraceCall) : Bool :=
  (c = .attach ∧ k ≤ 1) ∨ (c = c₀ ∧ (c = .cont ∨ 4 ≤ k))

theorem lies_stuckPattern {c₀ : TraceCall} (hc₀ : c₀ = .cont ∨ c₀ = .detach) (hk : 2 ≤ k)
    (halive : t.alive = true) (htracer : t.tracer = .us) (hstopped : t.stopped = true) :
    Ensures (Is tid base t k) (lastResort (lying base eio (stuckPattern c₀)) tid) (Lie P tid) := by
  rcases hc₀ with rfl | rfl
  . refine lies_cont hP (decide_eq_true (.inr ⟨rfl, .inl rfl⟩)) ?_
    simp [Tracee.permits, halive, htracer, hstopped]
  . refine lies_detach hP (by simp [stuckPattern]) (fun _ => by simp [stuckPattern]) ?_ ?_
    . exact decide_eq_true (.inr ⟨rfl, .inr (by omega)⟩)
    . simp [Tracee.permits, halive, htracer, hstopped]

theorem lies_nobody (halive : t.alive = true) (htracer : t.tracer = .nobody) {c₀ : TraceCall}
    (hc₀ : c₀ = .cont ∨ c₀ = .detach) (hretries : maxRetries ≠ 0) :
    Ensures (Is tid base t 0) (reattachAndResumeTracing (lying base eio (stuckPattern c₀)) tid maxRetries)
      (Lie P tid) := by
  obtain ⟨m, rfl⟩ := Nat.exists_eq_succ_of_ne_zero hretries
  have hfails : ∀ j c, c = .kill ∨ (∃ nohang, c = .waitpid nohang) ∨ (c = .detach ∧ j < 4) ∨ (c = .attach ∧ 1 < j) →
      stuckPattern c₀ j c = false := by
    rcases hc₀ with rfl | rfl <;> rintro j c (rfl | ⟨nohang, rfl⟩ | ⟨rfl, hj⟩ | ⟨rfl, hj⟩) <;>
      simp [stuckPattern] <;> omega
  have hreattach : ∀ k ≤ 1, Ensures (Is tid base t k) (reattach (lying base eio (stuckPattern c₀)) tid (m + 1))
      (Lie P tid) := by
    intro k hk
    have hwait : Ensures (Is tid base (t.effect 1 true .attach) (k + 1))
        (waitForStop (lying base eio (stuckPattern c₀)) tid) fun b s =>
          b = false ∧ Is tid base (t.effect 1 true .attach) (k + 2) s :=
      .bind_eq (ensures_call_error (hfails _ _ (.inr (.inl ⟨true, rfl⟩)))) (.pure fun _ hs => ⟨rfl, hs⟩)
    have hretry : Ensures (Is tid base (t.effect 1 true .attach) (k + 2))
        (retry (lying base eio (stuckPattern c₀)) tid) fun r s =>
          r = none ∧ From tid base (t.effect 1 true .attach) 2 s :=
      .bind_eq (ensures_call_error (hfails _ _ (.inr (.inr (.inl ⟨rfl, by omega⟩)))))
        (.pure fun _ hs => ⟨rfl, k + 3, by omega, hs⟩)
    have hattempt : Ensures (Is tid base t k) (attempt (lying base eio (stuckPattern c₀)) tid) fun r s =>
        r = none ∧ From tid base (t.effect 1 true .attach) 2 s := by
      refine .bind_eq (ensures_call_ok (decide_eq_true (.inl ⟨rfl, hk⟩)) ?_) (.bind_eq hwait hretry)
      simp [Tracee.permits, halive, htracer]
    refine lies_of_attempts (.bind_eq hattempt (ensures_attempts_eio (fun j hj => ?_) m)) ?_
    . exact hfails j .attach (.inr (.inr (.inr ⟨rfl, hj⟩)))
    . rintro s ⟨j, hj, hs⟩
      have hattached : (t.effect 1 true .attach).alive = true := halive
      exact lies_stuckPattern hP hc₀ hj hattached rfl rfl s hs
  apply lies_of_actUpon halive
  rw [htracer]
  refine .ite (fun _ => ?_) fun _ => hreattach 0 (by omega)
  exact .bind_eq (ensures_call_error (hfails 0 .kill (.inl rfl))) (hreattach 1 (by omega))

def kills (c₀ : TraceCall) (_ : Nat) (c : TraceCall) : Bool := c = .kill ∨ c = c₀

/-- What an attempt makes of the thread then: it is stopped by the signal, and detached if that is possible. -/
def kicked (c₀ : TraceCall) (t : Tracee) : Tracee :=
  if c₀ = .detach ∧ (t.signaled true).permits .detach = true then (t.signaled true).effect 1 true .detach
  else t.signaled true

omit hP in
theorem ensures_attempt_kills {c₀ : TraceCall} (hc₀ : c₀ = .cont ∨ c₀ = .detach) (halive : t.alive = true) :
    Ensures (Is tid base t k) (attempt (lying base FutexUnlocker.eperm (kills c₀)) tid) fun r s =>
      r = none ∧ ∃ j, Is tid base (kicked c₀ t) j s := by
  have hfails : ∀ j c, c = .attach ∨ c = .syscall → kills c₀ j c = false := by
    rcases hc₀ with rfl | rfl <;> rintro j c (rfl | rfl) <;> rfl
  have hretry : ∀ j, Ensures (Is tid base (t.signaled true) j)
      (retry (lying base FutexUnlocker.eperm (kills c₀)) tid) fun r s =>
        r = none ∧ ∃ j, Is tid base (kicked c₀ t) j s := by
    intro j
    by_cases hkicked : c₀ = .detach ∧ (t.signaled true).permits .detach = true
    . refine .bind_eq (ensures_call_ok ?_ hkicked.2) (.pure fun s hs => ⟨rfl, j + 1, ?_⟩)
      . exact decide_eq_true (.inr hkicked.1.symm)
      . rwa [kicked, if_pos hkicked]
    . refine .bind (ensures_call_fails ?_) fun _ => .pure fun s hs => ⟨rfl, j + 1, ?_⟩
      . rcases hc₀ with rfl | rfl
        . exact .inl rfl
        . exact .inr (Bool.eq_false_iff.mpr fun hpermits => hkicked ⟨rfl, hpermits⟩)
      . rw [kicked, if_neg hkicked]
        exact hs.2
  have hrest : ∀ j, Ensures (Is tid base t j)
      (do
        if ← succeeds (lying base FutexUnlocker.eperm (kills c₀)) tid .kill then
          if ← succeeds (lying base FutexUnlocker.eperm (kills c₀)) tid .syscall then return some true
          else retry (lying base FutexUnlocker.eperm (kills c₀)) tid
        else
          retry (lying base FutexUnlocker.eperm (kills c₀)) tid) fun r s =>
        r = none ∧ ∃ j, Is tid base (kicked c₀ t) j s := by
    intro j
    refine .bind_eq (ensures_succeeds_ok (decide_eq_true (.inl rfl)) halive) ?_
    exact .bind_eq (ensures_succeeds_error (.inl (hfails _ _ (.inr rfl)))) (hretry _)
  refine .bind_eq (ensures_call_error (hfails k .attach (.inl rfl))) ?_
  refine .bind_eq (ensures_getTracer_is halive) (.ite (fun _ => ?_) fun _ => hrest _)
  exact .bind_eq (ensures_succeeds_error (.inl (hfails _ _ (.inr rfl)))) (hrest _)

omit hP in
theorem lies_kills {c₀ : TraceCall} (hc₀ : c₀ = .cont ∨ c₀ = .detach) {p : Tracee → Prop} (m : Nat)
    (hp : ∀ t, p t → t.alive = true ∧ p (kicked c₀ t))
    (hlast : ∀ t k, p t → Ensures (Is tid base t k)
      (lastResort (lying base FutexUnlocker.eperm (kills c₀)) tid) (Lie P tid))
    (halive : t.alive = true) (hfirst : p (kicked c₀ t)) :
    Ensures (Is tid base t k) (reattach (lying base FutexUnlocker.eperm (kills c₀)) tid (m + 1)) (Lie P tid) := by
  let A : Tracing → Prop := fun s => ∃ t k, p t ∧ Is tid base t k s
  have hattempts :
      Ensures A (attempts (lying base FutexUnlocker.eperm (kills c₀)) tid m) fun r s => r = none ∧ A s := by
    apply ensures_attempts_none
    rintro s ⟨t, k, ht, hs⟩
    obtain ⟨hr, j, hj⟩ := ensures_attempt_kills hc₀ (hp t ht).1 s hs
    exact ⟨hr, kicked c₀ t, j, (hp t ht).2, hj⟩
  have hattempt : Ensures (Is tid base t k) (attempt (lying base FutexUnlocker.eperm (kills c₀)) tid) fun r s =>
      r = none ∧ A s :=
    (ensures_attempt_kills hc₀ halive).imp (fun _ hs => hs) fun r s ⟨hr, j, hj⟩ => ⟨hr, kicked c₀ t, j, hfirst, hj⟩
  apply lies_of_attempts (.bind_eq hattempt hattempts)
  rintro s ⟨t, k, ht, hs⟩
  exact hlast t k ht s hs

theorem lies_resumed (halive : t.alive = true) (htracer : t.tracer = .us) (hrunning : t.stopped = false)
    {c₀ : TraceCall} (hc₀ : c₀ = .cont ∨ c₀ = .detach) (hretries : maxRetries ≠ 0) :
    Ensures (Is tid base t 0)
      (reattachAndResumeTracing (lying base FutexUnlocker.eperm (kills c₀)) tid maxRetries) (Lie P tid) := by
  obtain ⟨m, rfl⟩ := Nat.exists_eq_succ_of_ne_zero hretries
  have hreattach : ∀ k, Ensures (Is tid base t k)
      (reattach (lying base FutexUnlocker.eperm (kills c₀)) tid (m + 1)) (Lie P tid) := by
    intro k
    rcases hc₀ with rfl | rfl
    . apply lies_kills (.inl rfl) (p := fun t => t.alive = true ∧ t.tracer = .us ∧ t.stopped = true) m
      . rintro t ⟨halive, htracer, hstopped⟩
        exact ⟨halive, by simp [kicked, Tracee.signaled, halive, htracer]⟩
      . rintro t k ⟨halive, htracer, hstopped⟩
        refine lies_cont hP (decide_eq_true (.inr rfl)) ?_
        simp [Tracee.permits, halive, htracer, hstopped]
      . exact halive
      . simp [kicked, Tracee.signaled, halive, htracer]
    . apply lies_kills (.inr rfl) (p := fun t => t.alive = true ∧ t.tracer = .nobody) m
      . rintro t ⟨halive, htracer⟩
        exact ⟨halive, by simp [kicked, Tracee.permits, Tracee.signaled, halive, htracer]⟩
      . rintro t k ⟨halive, htracer⟩
        refine lies_kill (.inl rfl) (decide_eq_true (.inl rfl)) halive fun hp => ?_
        simpa [htracer] using (hP _ hp).1
      . exact halive
      . simp [kicked, Tracee.permits, Tracee.effect, Tracee.signaled, halive, htracer]
  apply lies_of_actUpon halive
  rw [htracer]
  have hsyscall : kills c₀ 0 .syscall = false := by rcases hc₀ with rfl | rfl <;> rfl
  refine .bind_eq (ensures_succeeds_error (.inl hsyscall)) ?_
  refine .bind_eq (ensures_succeeds_error (.inr (permits_of_not_stopped hrunning (.inl rfl)))) ?_
  refine .bind (ensures_call_fails (.inr (permits_of_not_stopped hrunning (.inr rfl)))) fun _ => ?_
  exact (hreattach _).imp (fun _ hs => hs.2) fun _ _ hs => hs

omit hP in
theorem not_tellsTruth_of_lies {s : Tracing}
    (h : Ensures (Is tid s.calls (s.thread tid) 0)
      (reattachAndResumeTracing (lying s.calls errno succeed) tid maxRetries) (Lie P tid)) :
    ¬TellsTruth P (lying s.calls errno succeed) tid maxRetries s := by
  intro htruth
  have hlie := h s ⟨rfl, rfl⟩
  exact hlie.2 (htruth hlie.1)

end lies

section needed

variable (hP : ∀ t, P t → t.Resumed) {s : Tracing} (h : AlwaysTrue P can tid maxRetries s)
  (halive : (s.thread tid).alive = true)
include hP h halive

omit hP halive in
/-- If there is a run of calls that lies whenever `c` can succeed, then `c` cannot. -/
theorem cannot_of_lies {c : TraceCall} {errno : Nat} {succeed : Nat → TraceCall → Bool}
    (hsucceed : ∀ k c', succeed k c' = true → can c = true → can c' = true)
    (hlies : Ensures (Is tid s.calls (s.thread tid) 0)
      (reattachAndResumeTracing (lying s.calls errno succeed) tid maxRetries) (Lie P tid)) : can c = false := by
  by_contra hcan
  rw [Bool.not_eq_false] at hcan
  have hwithin : Within can (lying s.calls errno succeed) tid := within_lying fun k c' hc' => hsucceed k c' hc' hcan
  exact not_tellsTruth_of_lies hlies (h _ (quiet_lying _ _ _) hwithin)

theorem cannot_kill (hlie : ¬P ((s.thread tid).signaled true)) : can .kill = false := by
  refine cannot_of_lies h (fun k c hc hcan => ?_) (lies_kill_only hP halive hlie maxRetries)
  rwa [(of_decide_eq_true hc).1]

theorem cannot_resume_of_stopped (htracer : (s.thread tid).tracer = .us) (hstopped : (s.thread tid).stopped = true) :
    can .cont = false ∧ can .detach = false := by
  constructor
  . refine cannot_of_lies h (fun k c hc hcan => ?_) (lies_cont_us hP halive htracer hstopped maxRetries)
    rwa [(of_decide_eq_true hc).1]
  . refine cannot_of_lies h (fun k c hc hcan => ?_) (lies_detach_us hP halive htracer hstopped maxRetries)
    rwa [(of_decide_eq_true hc).1]

theorem cannot_resume_of_attach (htracer : (s.thread tid).tracer = .nobody) (hretries : maxRetries ≠ 0)
    (hattach : can .attach = true) : can .cont = false ∧ can .detach = false := by
  have hno : ∀ c₀, c₀ = .cont ∨ c₀ = .detach → can c₀ = false := by
    intro c₀ hc₀
    refine cannot_of_lies h (fun k c hc hcan => ?_) (lies_nobody hP halive htracer hc₀ hretries)
    rcases of_decide_eq_true hc with ⟨rfl, -⟩ | ⟨rfl, -⟩
    . exact hattach
    . exact hcan
  exact ⟨hno .cont (.inl rfl), hno .detach (.inr rfl)⟩

theorem cannot_resume_of_kill (htracer : (s.thread tid).tracer = .us) (hrunning : (s.thread tid).stopped = false)
    (hretries : maxRetries ≠ 0) (hkill : can .kill = true) : can .cont = false ∧ can .detach = false := by
  have hno : ∀ c₀, c₀ = .cont ∨ c₀ = .detach → can c₀ = false := by
    intro c₀ hc₀
    refine cannot_of_lies h (fun k c hc hcan => ?_) (lies_resumed hP halive htracer hrunning hc₀ hretries)
    rcases of_decide_eq_true hc with rfl | rfl
    . exact hkill
    . exact hcan
  exact ⟨hno .cont (.inl rfl), hno .detach (.inr rfl)⟩

theorem onlySyscall_of_not_kill (hkill : can .kill = false) : OnlySyscall can (s.thread tid) maxRetries := by
  refine fun _ => ⟨hkill, ?_⟩
  cases htracer : (s.thread tid).tracer with
  | us =>
    cases hstopped : (s.thread tid).stopped with
    | false => exact .inl rfl
    | true => exact .inr (cannot_resume_of_stopped hP h halive htracer hstopped)
  | other => trivial
  | nobody =>
    by_cases hretries : maxRetries = 0
    . exact .inl hretries
    . cases hattach : can .attach with
      | false => exact .inr (.inl rfl)
      | true => exact .inr (.inr (cannot_resume_of_attach hP h halive htracer hretries hattach))

end needed

theorem onlySyscall_of_alwaysTrue {s : Tracing} (h : AlwaysTrue Tracee.Monitored can tid maxRetries s) :
    OnlySyscall can (s.thread tid) maxRetries := by
  intro halive
  refine onlySyscall_of_not_kill (fun _ => Tracee.Monitored.resumed) h halive ?_ halive
  apply cannot_kill (fun _ => Tracee.Monitored.resumed) h halive
  rintro ⟨hours, hrunning, -⟩
  rw [Tracee.signaled_tracer] at hours
  simp [Tracee.signaled_stopped_of_us _ _ halive hours] at hrunning

theorem onlySyscall_or_staysResumed {s : Tracing} (h : AlwaysTrue Tracee.Resumed can tid maxRetries s) :
    OnlySyscall can (s.thread tid) maxRetries ∨ StaysResumed can (s.thread tid) maxRetries := by
  cases halive : (s.thread tid).alive with
  | false => exact .inl fun htrue => absurd htrue (by simp [halive])
  | true =>
    have hP : ∀ t : Tracee, t.Resumed → t.Resumed := fun _ ht => ht
    cases hkill : can .kill with
    | false => exact .inl (onlySyscall_of_not_kill hP h halive hkill)
    | true =>
      have hresumed : (s.thread tid).Resumed := by
        by_contra hlie
        rw [cannot_kill hP h halive (by simpa [Tracee.Resumed] using hlie)] at hkill
        cases hkill
      refine .inr ⟨hresumed, ?_⟩
      cases hstopped : (s.thread tid).stopped with
      | true => exact .inl (cannot_resume_of_stopped hP h halive hresumed.1 hstopped)
      | false =>
        by_cases hretries : maxRetries = 0
        . exact .inr ⟨rfl, hretries⟩
        . exact .inl (cannot_resume_of_kill hP h halive hresumed.1 hstopped hretries hkill)

/--
The result can be trusted, whatever the start state and the number of attempts, exactly if the calls that can succeed
leave only `PTRACE_SYSCALL` to return true with. If a thread that has been stopped by a signal since counts as well,
then there are two more cases.
-/
theorem alwaysTrue_iff_onlySyscall (can : TraceCall → Bool) (tid : Pid) (maxRetries : Nat) (s : Tracing) :
    (AlwaysTrue Tracee.Monitored can tid maxRetries s
      ↔
    OnlySyscall can (s.thread tid) maxRetries)
      ∧
    (AlwaysTrue Tracee.Resumed can tid maxRetries s
      ↔
    OnlySyscall can (s.thread tid) maxRetries ∨ StaysResumed can (s.thread tid) maxRetries) := by
  refine ⟨⟨onlySyscall_of_alwaysTrue, alwaysTrue_of_onlySyscall⟩, onlySyscall_or_staysResumed, fun h => ?_⟩
  rcases h with honly | hstays
  . exact (alwaysTrue_of_onlySyscall honly).imp fun _ => Tracee.Monitored.resumed
  . exact alwaysTrue_of_staysResumed hstays

/--
The thread is stopped and traced by us. `PTRACE_SYSCALL` fails, `PTRACE_CONT` succeeds.
-/
theorem exists_untruthful :
    ∃ env, Quiet env ∧ ¬TellsTruth Tracee.Resumed env 1 5 { thread := fun _ => ⟨true, .us, true, true, false⟩ } :=
  ⟨_, quiet_lying _ _ _, not_tellsTruth_of_lies (lies_cont_us (fun _ h => h) rfl rfl rfl 5)⟩

end Tracing

end DeadlockInterceptor
