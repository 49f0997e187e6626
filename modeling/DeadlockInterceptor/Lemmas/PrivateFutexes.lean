import DeadlockInterceptor.Lemmas.UnlockEffects
import DeadlockInterceptor.Spec.PrivateFutexes

/-!
This module contains which sleeping threads `unlock` reaches. It wakes in its own process, where the threads of
the target do not sleep.
-/

namespace DeadlockInterceptor

namespace PrivateQueues

variable {caller : Nat} {key : Nat × Addr}

theorem step_of_ne (queues : PrivateQueues) (h : key.1 ≠ caller) (e : SysCall × Reply) :
    step caller queues e key = queues key := by
  obtain ⟨c, reply⟩ := e
  cases c with
  | futexWake addr =>
    cases reply with
    | ok _ => exact Function.update_of_ne (fun heq => h (congrArg Prod.fst heq)) _ _
    | error _ => rfl
  | _ => rfl

theorem run_of_ne (queues : PrivateQueues) (h : key.1 ≠ caller) (log : List (SysCall × Reply)) :
    queues.run caller log key = queues key := by
  induction log generalizing queues with
  | nil => rfl
  | cons e log ih => exact (ih (step caller queues e)).trans (step_of_ne queues h e)

end PrivateQueues

theorem Memory.word_zero (memory : Memory) (a : Addr) : (memory.zero a 4).word a = 0 := by
  rw [Memory.word_eq_zero_iff]
  intro i hi
  simp only [Memory.zero, add_sub_cancel_left, if_pos (toNat_lt_four i hi)]

namespace FutexUnlocker

section willing

def willingKernel (pid : Nat) : Kernel := ⟨fun _ => .ok 4, pid⟩

variable {lockAddr : Addr} {pid : Nat}

theorem ensures_isUnlocked_willing (memory : Memory) :
    Ensures (fun u => u.memory = memory) (isUnlocked (willingKernel pid) lockAddr) fun success u =>
      success = decide (memory.word lockAddr = 0) ∧ u.memory = memory := by
  rintro u rfl
  exact ⟨rfl, rfl⟩

theorem ensures_tryMethods_willing :
    Ensures (fun _ => True) (tryMethods (willingKernel pid) lockAddr) fun success _ => success = true := by
  have hmethod : Ensures (fun _ => True)
      (tryMethod (willingKernel pid) (unlockWithProcessVm (willingKernel pid)) lockAddr)
      fun success _ => success = true :=
    fun u _ => decide_eq_true (Memory.word_zero u.memory lockAddr)
  refine .bind hmethod fun success => .ite (fun _ => .pure fun _ _ => rfl) fun hfailure => ?_
  exact fun _ h => absurd h hfailure

theorem ensures_unlock_willing (u : FutexUnlocker) {maxAttempts : Nat}
    (h : u.memory.word lockAddr = 0 ∨ maxAttempts ≠ 0) :
    Ensures (fun v => v.memory = u.memory) (unlock (willingKernel pid) lockAddr maxAttempts)
      fun success _ => success = true := by
  refine .bind (.modify (Q := fun _ v => v.memory = u.memory) fun _ h => h) fun _ => ?_
  refine .bind (ensures_isUnlocked_willing u.memory) fun success => .and_left fun hsuccess => ?_
  refine .ite (fun _ => ?_) fun hlocked => ?_
  . exact .bind (.modify (Q := fun _ _ => True) fun _ _ => trivial) fun _ => .pure fun _ _ => rfl
  . have hword : u.memory.word lockAddr ≠ 0 := fun hzero => hlocked (hsuccess.trans (decide_eq_true hzero))
    obtain ⟨k, rfl⟩ := Nat.exists_eq_succ_of_ne_zero (h.resolve_left hword)
    refine .bind (ensures_tryMethods_willing.imp (fun _ _ => trivial) fun _ _ h => h) fun success => ?_
    refine .ite (fun _ => ?_) fun hfailure => fun _ h => absurd h hfailure
    exact .bind (.modify (Q := fun _ _ => True) fun _ _ => trivial) fun _ => .pure fun _ _ => rfl

end willing

theorem queuesAfter_of_ne {kernel : Kernel} {target : Nat} (hother : kernel.getpid ≠ target) (u : FutexUnlocker)
    (queues : PrivateQueues) (lockAddr : Addr) (maxAttempts : Nat) (a : Addr) :
    queuesAfter kernel u queues lockAddr maxAttempts (target, a) = queues (target, a) :=
  queues.run_of_ne hother.symm _

/--
From another process, `unlock` leaves the queue of the target as it is. So it leaves no sleeper behind whatever the
outcomes of the system calls exactly if there has been none, or it cannot return true.
-/
theorem leavesNoSleeper_iff (u : FutexUnlocker) (queues : PrivateQueues) (target : Nat) (lockAddr : Addr)
    (maxAttempts : Nat) :
    (∀ kernel : Kernel, kernel.getpid ≠ target →
      queuesAfter kernel u queues lockAddr maxAttempts (target, lockAddr) = queues (target, lockAddr)) ∧
    ((∀ kernel : Kernel, kernel.getpid ≠ target →
        LeavesNoSleeper kernel u queues target lockAddr maxAttempts)
      ↔
      queues (target, lockAddr) = [] ∨ (maxAttempts = 0 ∧ u.memory.word lockAddr ≠ 0)) := by
  refine ⟨fun kernel hother => queuesAfter_of_ne hother u queues lockAddr maxAttempts lockAddr, ?_⟩
  constructor
  . intro h
    by_cases hfails : maxAttempts = 0 ∧ u.memory.word lockAddr ≠ 0
    . exact .inr hfails
    . left
      have hsucceeds : u.memory.word lockAddr = 0 ∨ maxAttempts ≠ 0 := by tauto
      have hother : (willingKernel (target + 1)).getpid ≠ target := Nat.succ_ne_self target
      rw [← queuesAfter_of_ne hother u queues lockAddr maxAttempts lockAddr]
      exact h _ hother (ensures_unlock_willing u hsucceeds { u with log := [] } rfl)
  . rintro (hempty | ⟨rfl, hlocked⟩) kernel hother hsuccess
    . rw [queuesAfter_of_ne hother]
      exact hempty
    . obtain ⟨hzero, hmemory⟩ := ensures_unlock_zero kernel lockAddr u.memory { u with log := [] } rfl
      rw [← hmemory] at hlocked
      exact absurd (hzero hsuccess) hlocked

/-- Thread 12 of process 11 sleeps on the futex, which process 20 sets to zero at the first attempt. -/
theorem exists_sleeperLeft :
    ¬∀ (kernel : Kernel) (u : FutexUnlocker) (queues : PrivateQueues) (target : Nat) (lockAddr : Addr)
        (maxAttempts : Nat),
      kernel.getpid ≠ target → LeavesNoSleeper kernel u queues target lockAddr maxAttempts := by
  intro h
  have hempty := h ⟨fun k => if k = 2 then .ok 0 else .ok 4, 20⟩ { memory := fun _ => 1 }
    (fun key => if key = (11, 0x10000) then [12] else []) 11 0x10000 5 (by decide) (by decide +kernel)
  revert hempty
  decide +kernel

end FutexUnlocker

end DeadlockInterceptor
