import DeadlockInterceptor.Impl.Resume
import DeadlockInterceptor.Lemmas.Pass

/-!
This module contains what happens to the signals of the target while its threads are traced. A thread that is
resumed from a signal-delivery stop gets the signal that the request names, and none if the request names zero.
-/

namespace DeadlockInterceptor

abbrev Signal := Nat

def sigstop : Signal := 19

def wifstopped (status : Status) : Bool := status &&& 0xff = 0x7f

def wstopsig (status : Status) : Signal := ((status &&& 0xff00) >>> 8).toNat

/--
The signal of a signal-delivery stop. The other stops are those of system calls and of an attach.
-/
def ResumeEnv.deliveredSignal (env : ResumeEnv) : Option Signal :=
  if wifstopped env.status && !(env.status.sshiftRight 8 = sigtrap ||| 0x80) &&
      !(env.attaching && wstopsig env.status = sigstop) then
    some (wstopsig env.status)
  else
    none

def resumedWith (requests : List ResumeRequest) : Option Nat :=
  (requests.find? fun request => request.succeeded).map fun request => request.data

section trace

variable (tid : Pid)

def reported (trace : List (ResumeEnv × List ResumeRequest)) : List Signal :=
  trace.filterMap fun turn =>
    if turn.1.tid = tid ∧ (resumedWith turn.2).isSome = true then turn.1.deliveredSignal else none

def reinjected (trace : List (ResumeEnv × List ResumeRequest)) : List Signal :=
  trace.filterMap fun turn =>
    if turn.1.tid = tid ∧ turn.1.deliveredSignal.isSome = true then
      (resumedWith turn.2).filter fun data => data ≠ 0
    else
      none

/-- The signals of the stops from which the thread is resumed without a signal. -/
def discarded (trace : List (ResumeEnv × List ResumeRequest)) : List Signal :=
  trace.filterMap fun turn =>
    if turn.1.tid = tid ∧ resumedWith turn.2 = some 0 then turn.1.deliveredSignal else none

end trace

namespace MainState

theorem data_eq_zero_of_mem_requests {env : ResumeEnv} {m : Outcome MainState} {request : ResumeRequest}
    (h : request ∈ requests env m) : request.data = 0 := by
  have hresume : ∀ tid, request ∈ resumeTid env tid → request.data = 0 := by
    intro tid hmem
    unfold resumeTid at hmem
    split at hmem
    . cases hmem
    . dsimp only at hmem
      split at hmem
      . rcases List.mem_pair.mp hmem with rfl | rfl
        . rfl
        . rfl
      . rw [List.mem_singleton.mp hmem]
  cases m with
  | thrown _ _ => cases h
  | undefined => cases h
  | returned m =>
    simp only [requests, turnRequests] at h
    split at h
    . cases h
    . split at h
      . cases h
      . split at h
        . cases h
        . cases hturn : m.turn env.toTurnEnv with
          | thrown _ _ =>
            rw [hturn] at h
            cases h
          | undefined =>
            rw [hturn] at h
            cases h
          | returned m' =>
            rw [hturn] at h
            dsimp only at h
            split at h
            . exact hresume _ h
            . cases h

theorem resumedWith_requests (env : ResumeEnv) (m : Outcome MainState) :
    resumedWith (requests env m) = none ∨ resumedWith (requests env m) = some 0 := by
  unfold resumedWith
  cases hfind : (requests env m).find? fun request => request.succeeded with
  | none => exact .inl rfl
  | some request =>
    right
    rw [Option.map_some, data_eq_zero_of_mem_requests (List.mem_of_find?_eq_some hfind)]

theorem resumedWith_trace {m : Outcome MainState} {envs : List ResumeEnv} :
    ∀ turn ∈ trace m envs, resumedWith turn.2 = none ∨ resumedWith turn.2 = some 0 := by
  induction envs generalizing m with
  | nil => exact fun _ h => absurd h List.not_mem_nil
  | cons env envs ih =>
    rintro turn (_ | ⟨_, hmem⟩)
    . exact resumedWith_requests env m
    . exact ih turn hmem

theorem reinjected_trace (m : Outcome MainState) (envs : List ResumeEnv) (tid : Pid) :
    reinjected tid (trace m envs) = [] := by
  rw [reinjected, List.filterMap_eq_nil_iff]
  intro turn hturn
  split
  . rcases resumedWith_trace turn hturn with hnone | hzero
    . rw [hnone]
      rfl
    . rw [hzero]
      rfl
  . rfl

theorem discarded_trace (m : Outcome MainState) (envs : List ResumeEnv) (tid : Pid) :
    discarded tid (trace m envs) = reported tid (trace m envs) := by
  apply List.filterMap_congr
  intro turn hturn
  rcases resumedWith_trace turn hturn with hnone | hzero
  . simp only [hnone, reduceCtorEq, and_false, if_false, Option.isSome_none, Bool.false_eq_true]
  . simp only [hzero, Option.isSome_some]

theorem data_eq_zero_of_mem_trace {m : Outcome MainState} {envs : List ResumeEnv} :
    ∀ turn ∈ trace m envs, ∀ request ∈ turn.2, request.data = 0 := by
  induction envs generalizing m with
  | nil => exact fun _ h => absurd h List.not_mem_nil
  | cons env envs ih =>
    rintro turn (_ | ⟨_, hmem⟩)
    . exact fun _ => data_eq_zero_of_mem_requests
    . exact ih turn hmem

/--
The loop swallows signals: its requests never name one, none is delivered to a thread that is resumed from a
signal-delivery stop, and those that are lost are, in order, all that these stops have reported.
-/
theorem signals_trace (m : Outcome MainState) (envs : List ResumeEnv) (tid : Pid) :
    (∀ turn ∈ trace m envs, ∀ request ∈ turn.2, request.data = 0)
      ∧
    reinjected tid (trace m envs) = []
      ∧
    discarded tid (trace m envs) = reported tid (trace m envs)
      ∧
    (reinjected tid (trace m envs) = reported tid (trace m envs) ↔ reported tid (trace m envs) = []) := by
  refine ⟨data_eq_zero_of_mem_trace, reinjected_trace m envs tid, discarded_trace m envs tid, ?_⟩
  rw [reinjected_trace, eq_comm]

section usr1

def usr1Stop : ResumeEnv where
  toTurnEnv := { futexStop 7 0x10000 0 with status := 0x0a7f }
  resumeAlive := true
  syscallSucceeds := true
  contSucceeds := true
  attaching := false

theorem exists_swallowed : ¬∀ (memory : Memory) (envs : List ResumeEnv) (tid : Pid),
    reinjected tid (trace (.returned (init memory)) envs) = reported tid (trace (.returned (init memory)) envs) := by
  intro h
  have hlost : [] = [10] := h (fun _ => 0) [usr1Stop] 7
  cases hlost

end usr1

end MainState

end DeadlockInterceptor
