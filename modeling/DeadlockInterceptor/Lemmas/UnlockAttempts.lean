import DeadlockInterceptor.Lemmas.UnlockEffects

/-!
This module contains comparisons of two runs of the unlocker from the same state and with the same outcomes of the
system calls: with more attempts, and the attempt that is not counted.
-/

namespace DeadlockInterceptor

namespace FutexUnlocker

variable {kernel : Kernel} {u : FutexUnlocker} {lockAddr : Addr}

def countSuccess : StateM FutexUnlocker Bool := do
  modify fun u => { u with successfulUnlocks := u.successfulUnlocks + 1 }
  return true

theorem attempts_succ_run (n : Nat) :
    (attempts kernel lockAddr (n + 1)).run u
      =
    if ((tryMethods kernel lockAddr).run u).1 = true then
      countSuccess.run ((tryMethods kernel lockAddr).run u).2
    else
      (attempts kernel lockAddr n).run ((tryMethods kernel lockAddr).run u).2 :=
  apply_ite (fun m : StateM FutexUnlocker Bool => m.run _) _ _ _

theorem unlock_run (m : Nat) :
    (unlock kernel lockAddr m).run u
      =
    let checked := (isUnlocked kernel lockAddr).run { u with totalAttempts := u.totalAttempts + 1 }
    if checked.1 = true then countSuccess.run checked.2 else (attempts kernel lockAddr m).run checked.2 :=
  apply_ite (fun m : StateM FutexUnlocker Bool => m.run _) _ _ _

theorem attempts_run_of_le {n n' : Nat} (hle : n ≤ n') (hsuccess : ((attempts kernel lockAddr n).run u).1 = true) :
    (attempts kernel lockAddr n').run u = (attempts kernel lockAddr n).run u := by
  induction n generalizing n' u with
  | zero => cases hsuccess
  | succ n ih =>
    obtain ⟨n', rfl⟩ := Nat.exists_eq_add_one.mpr (Nat.lt_of_lt_of_le (Nat.succ_pos n) hle)
    rw [attempts_succ_run] at hsuccess
    rw [attempts_succ_run, attempts_succ_run]
    split
    . rfl
    . next hfailed =>
      rw [if_neg hfailed] at hsuccess
      exact ih (Nat.le_of_succ_le_succ hle) hsuccess

theorem unlock_run_of_le {m m' : Nat} (hle : m ≤ m') (hsuccess : ((unlock kernel lockAddr m).run u).1 = true) :
    (unlock kernel lockAddr m').run u = (unlock kernel lockAddr m).run u := by
  rw [unlock_run] at hsuccess
  rw [unlock_run, unlock_run]
  dsimp only at hsuccess ⊢
  split
  . rfl
  . next hlocked =>
    rw [if_neg hlocked] at hsuccess
    exact attempts_run_of_le hle hsuccess

structure SameEffects (u v : FutexUnlocker) : Prop where
  memory : u.memory = v.memory
  ptraceAttached : u.ptraceAttached = v.ptraceAttached
  log : u.log = v.log

theorem SameEffects.eq_counters {u v : FutexUnlocker} (h : SameEffects u v) :
    u = { v with totalAttempts := u.totalAttempts, successfulUnlocks := u.successfulUnlocks } := by
  obtain ⟨_, _, _, _, _⟩ := u
  obtain ⟨rfl, rfl, rfl⟩ := h
  rfl

theorem callSimulation_sameEffects (kernel : Kernel) (lockAddr : Addr) :
    CallSimulation kernel lockAddr SameEffects where
  call c _ u v h := by
    obtain ⟨hmemory, hattached, hlog⟩ := h
    simp only [StateT.run, call, hmemory, hlog]
    exact ⟨trivial, rfl, hattached, rfl⟩
  attached _ _ h := ⟨h.memory, rfl, h.log⟩
  memory _ _ h := h.memory
  ptraceAttached _ _ h := h.ptraceAttached

theorem unlockBestEffort_eq (kernel : Kernel) (lockAddr : Addr) :
    unlockBestEffort kernel lockAddr
      =
    (do if ← isUnlocked kernel lockAddr then return true else tryMethods kernel lockAddr) := by
  have htail : ∀ m : StateM FutexUnlocker Bool, (do if ← m then return true else return false) = m := by
    intro m
    have heta : (fun b : Bool => if b = true then pure true else pure false : Bool → StateM FutexUnlocker Bool)
        = pure := by
      funext b
      cases b with
      | false => rfl
      | true => rfl
    rw [heta, bind_pure]
  simp only [unlockBestEffort, tryMethods, htail]

/-- The one attempt of `unlock` and the one that is not counted make the same calls. -/
theorem agree_bestEffort_unlock (kernel : Kernel) (lockAddr : Addr) :
    Agree SameEffects (unlockBestEffort kernel lockAddr) (unlock kernel lockAddr 1) := by
  have hcalls := callSimulation_sameEffects kernel lockAddr
  have hcount : Agree SameEffects (return true) countSuccess :=
    .bind_modify (fun _ _ h => ⟨h.memory, h.ptraceAttached, h.log⟩) (.pure true)
  rw [unlockBestEffort_eq]
  refine .bind_modify (fun _ _ h => ⟨h.memory, h.ptraceAttached, h.log⟩) ?_
  refine .bind (agree_isUnlocked hcalls) fun unlocked => .ite hcount ?_
  rw [← bind_pure (tryMethods kernel lockAddr)]
  refine .bind (agree_tryMethods hcalls) fun success => ?_
  cases success with
  | false => exact .pure false
  | true => exact hcount

theorem preserves_unlockBestEffort {I : FutexUnlocker → Prop} (h : CallInvariant kernel lockAddr I) :
    Preserves I (unlockBestEffort kernel lockAddr) := by
  rw [unlockBestEffort_eq]
  exact .bind (preserves_isUnlocked h) fun _ => .ite (.pure _) (preserves_tryMethods h)

/--
A success is not lost by allowing more attempts, the calls and what they change are the same. The attempt that is
not counted does what one attempt does, except for the counters.
-/
theorem unlock_attempts (kernel : Kernel) (u : FutexUnlocker) (lockAddr : Addr) :
    (∀ m m' : Nat, m ≤ m' → ((unlock kernel lockAddr m).run u).1 = true →
      (unlock kernel lockAddr m').run u = (unlock kernel lockAddr m).run u)
      ∧
    ((unlockBestEffort kernel lockAddr).run u).1 = ((unlock kernel lockAddr 1).run u).1
      ∧
    ((unlockBestEffort kernel lockAddr).run u).2
      =
    { ((unlock kernel lockAddr 1).run u).2 with
      totalAttempts := u.totalAttempts
      successfulUnlocks := u.successfulUnlocks } := by
  obtain ⟨hresult, heffects⟩ := agree_bestEffort_unlock kernel lockAddr u u ⟨rfl, rfl, rfl⟩
  have hcounters := preserves_unlockBestEffort
    (callInvariant_counted kernel lockAddr u.totalAttempts u.successfulUnlocks) u ⟨rfl, rfl⟩
  refine ⟨fun _ _ => unlock_run_of_le, hresult, heffects.eq_counters.trans ?_⟩
  rw [hcounters.1, hcounters.2]

end FutexUnlocker

end DeadlockInterceptor
