import DeadlockInterceptor.Impl.FutexUnlocker
import DeadlockInterceptor.Transition.Agrees

/-!
This module contains what the unlocker does to the memory of the target: every byte that a call has reported
to be written is zero, and all other bytes are untouched.
-/

namespace DeadlockInterceptor

def Overwritten (log : List (SysCall × Reply)) (a : Addr) : Prop :=
  ∃ e ∈ log, ∃ addr n, e.1.written e.2 = some (addr, n) ∧ (a - addr).toNat < n

theorem overwritten_concat {log : List (SysCall × Reply)} {e : SysCall × Reply} {a : Addr} :
    Overwritten (log ++ [e]) a
      ↔
    Overwritten log a ∨ ∃ addr n, e.1.written e.2 = some (addr, n) ∧ (a - addr).toNat < n := by
  simp only [Overwritten, List.mem_append, List.mem_singleton, or_and_right, exists_or,
    exists_eq_left]

def SysCall.IsFor (lockAddr : Addr) : SysCall → Prop
  | .processVmReadv addr => addr = lockAddr
  | .pread addr => addr = lockAddr
  | .processVmWritev addr => addr = lockAddr
  | .pwrite addr => addr = lockAddr
  | .pokeData addr => ∃ i ∈ [0, 1, 2, 3], addr = lockAddr + i
  | .futexWake addr => addr = lockAddr
  | .openMemRdonly | .openMemRdwr | .ptraceAttach | .waitpid | .readTracerPid => True

namespace FutexUnlocker

structure Accounted (kernel : Kernel) (memory : Memory) (u : FutexUnlocker) : Prop where
  zero : ∀ a, Overwritten u.log a → u.memory a = 0
  frame : ∀ a, ¬Overwritten u.log a → u.memory a = memory a
  replies : ∀ k e, u.log[k]? = some e → e.2 = kernel.reply k

variable {kernel : Kernel} {memory : Memory} {u : FutexUnlocker}

theorem accounted_init (kernel : Kernel) (memory : Memory) : Accounted kernel memory { memory := memory } where
  zero a h := by
    obtain ⟨e, he, -⟩ := h
    exact absurd he List.not_mem_nil
  frame _ _ := rfl
  replies k e he := by simp at he

theorem call_log (c : SysCall) :
    (call kernel c u).2.log = u.log ++ [(c, kernel.reply u.log.length)] := rfl

theorem call_memory (c : SysCall) (a : Addr) :
    (call kernel c u).2.memory a
      =
    match c.written (kernel.reply u.log.length) with
    | some (addr, n) => if (a - addr).toNat < n then 0 else u.memory a
    | none => u.memory a := by
  simp only [call]
  cases c.written (kernel.reply u.log.length) with
  | none => rfl
  | some region => rfl

theorem Accounted.call (h : Accounted kernel memory u) (c : SysCall) :
    Accounted kernel memory (call kernel c u).2 := by
  refine ⟨?_, ?_, ?_⟩
  . intro a ha
    rw [call_log, overwritten_concat] at ha
    rw [call_memory]
    cases hw : c.written (kernel.reply u.log.length) with
    | none =>
      simp only [hw, reduceCtorEq, false_and, exists_false, or_false] at ha
      exact h.zero a ha
    | some region =>
      obtain ⟨addr, n⟩ := region
      simp only
      split
      . rfl
      . next hout =>
        rcases ha with ha | ⟨addr', n', heq, hin⟩
        . exact h.zero a ha
        . simp only [hw, Option.some.injEq, Prod.mk.injEq] at heq
          obtain ⟨rfl, rfl⟩ := heq
          exact absurd hin hout
  . intro a ha
    rw [call_log, overwritten_concat, not_or] at ha
    rw [call_memory]
    cases hw : c.written (kernel.reply u.log.length) with
    | none => exact h.frame a ha.1
    | some region =>
      obtain ⟨addr, n⟩ := region
      simp only
      rw [if_neg fun hin => ha.2 ⟨addr, n, hw, hin⟩]
      exact h.frame a ha.1
  . intro k e he
    rw [call_log] at he
    rcases Nat.lt_trichotomy k u.log.length with hlt | rfl | hgt
    . rw [List.getElem?_append_left hlt] at he
      exact h.replies k e he
    . rw [List.getElem?_concat_length, Option.some.injEq] at he
      rw [← he]
    . rw [List.getElem?_eq_none (by simp; omega)] at he
      cases he

/--
What the calls for the futex at `lockAddr` preserve, and what does not depend on `ptraceAttached`.
-/
structure CallInvariant (kernel : Kernel) (lockAddr : Addr) (I : FutexUnlocker → Prop) : Prop where
  call : ∀ c : SysCall, c.IsFor lockAddr → Preserves I (call kernel c)
  attached : ∀ u, I u → I { u with ptraceAttached := true }

structure UnlockInvariant (kernel : Kernel) (lockAddr : Addr) (I : FutexUnlocker → Prop) : Prop extends
    CallInvariant kernel lockAddr I where
  counters : ∀ u m n, I u → I { u with totalAttempts := m, successfulUnlocks := n }

structure CallSimulation (kernel : Kernel) (lockAddr : Addr) (R : FutexUnlocker → FutexUnlocker → Prop) :
    Prop where
  call : ∀ c : SysCall, c.IsFor lockAddr → Agree R (call kernel c) (call kernel c)
  attached : ∀ u v, R u v → R { u with ptraceAttached := true } { v with ptraceAttached := true }
  memory : ∀ u v, R u v → u.memory = v.memory
  ptraceAttached : ∀ u v, R u v → u.ptraceAttached = v.ptraceAttached

section agree

variable {R : FutexUnlocker → FutexUnlocker → Prop} {lockAddr : Addr}

theorem agree_readProcessMemory (h : CallSimulation kernel lockAddr R) :
    Agree R (readProcessMemory kernel lockAddr) (readProcessMemory kernel lockAddr) := by
  refine .get_bind fun u v huv => ?_
  rw [h.memory u v huv]
  refine .bind (h.call _ rfl) fun reply => .ite (.pure _) ?_
  refine .bind (h.call _ trivial) fun reply => ?_
  cases reply with
  | ok _ => exact .bind (h.call _ rfl) fun _ => .ite (.pure _) (.pure _)
  | error _ => exact .pure _

theorem agree_isUnlocked (h : CallSimulation kernel lockAddr R) :
    Agree R (isUnlocked kernel lockAddr) (isUnlocked kernel lockAddr) := by
  refine .bind (agree_readProcessMemory h) fun value => ?_
  cases value with
  | some _ => exact .pure _
  | none => exact .pure _

theorem agree_wakeFutex (h : CallSimulation kernel lockAddr R) :
    Agree R (wakeFutex kernel lockAddr) (wakeFutex kernel lockAddr) :=
  .bind (h.call _ rfl) fun _ => .pure _

theorem agree_unlockWithProcessVm (h : CallSimulation kernel lockAddr R) :
    Agree R (unlockWithProcessVm kernel lockAddr) (unlockWithProcessVm kernel lockAddr) :=
  .bind (h.call _ rfl) fun _ => .ite (.bind (agree_wakeFutex h) fun _ => .pure _) (.pure _)

theorem agree_unlockWithProcMem (h : CallSimulation kernel lockAddr R) :
    Agree R (unlockWithProcMem kernel lockAddr) (unlockWithProcMem kernel lockAddr) := by
  refine .bind (h.call _ trivial) fun reply => ?_
  cases reply with
  | error _ => exact .pure _
  | ok _ =>
    exact .bind (h.call _ rfl) fun _ => .ite (.bind (agree_wakeFutex h) fun _ => .pure _) (.pure _)

theorem agree_attach (h : CallSimulation kernel lockAddr R) (attempts : Nat) :
    Agree R (attach kernel attempts) (attach kernel attempts) := by
  induction attempts with
  | zero => exact .pure _
  | succ attempts ih =>
    refine .bind (h.call _ trivial) fun reply => ?_
    cases reply with
    | ok _ => exact .bind (h.call _ trivial) fun _ => .pure _
    | error errno =>
      refine .ite (.bind (h.call _ trivial) fun reply => ?_) ih
      cases reply with
      | ok _ => exact .ite (.pure _) ih
      | error _ => exact ih

theorem agree_pokeBytes (h : CallSimulation kernel lockAddr R) {offsets : List Addr}
    (hoffsets : ∀ i ∈ offsets, i ∈ [0, 1, 2, 3]) (success : Bool) :
    Agree R (pokeBytes kernel lockAddr offsets success) (pokeBytes kernel lockAddr offsets success) := by
  induction offsets generalizing success with
  | nil => exact .pure _
  | cons i rest ih =>
    have ih' := ih fun j hj => hoffsets j (List.mem_cons_of_mem i hj)
    refine .bind (h.call _ ⟨i, hoffsets i List.mem_cons_self, rfl⟩) fun reply => ?_
    cases reply with
    | ok _ => exact ih' true
    | error errno => exact .ite (.pure _) (ih' true)

theorem agree_poke (h : CallSimulation kernel lockAddr R) :
    Agree R (poke kernel lockAddr) (poke kernel lockAddr) := by
  refine .bind (h.call _ ⟨0, List.mem_cons_self, (add_zero lockAddr).symm⟩) fun reply => ?_
  cases reply with
  | ok _ => exact .pure _
  | error _ => exact agree_pokeBytes h (fun _ hi => hi) _

theorem agree_unlockWithPtrace (h : CallSimulation kernel lockAddr R) :
    Agree R (unlockWithPtrace kernel lockAddr) (unlockWithPtrace kernel lockAddr) := by
  refine .get_bind fun u v huv => ?_
  rw [h.ptraceAttached u v huv]
  refine .ite (.bind (.pure _) ?attached) (.bind (agree_attach h 3) ?attached)
  intro attached
  refine .ite (.bind (.modify h.attached) fun _ => ?_) (.pure _)
  refine .bind (agree_poke h) fun success => ?_
  exact .ite (.bind (agree_wakeFutex h) fun _ => .pure _) (.pure _)

theorem agree_tryMethod (h : CallSimulation kernel lockAddr R) {method : Addr → StateM FutexUnlocker Bool}
    (hmethod : Agree R (method lockAddr) (method lockAddr)) :
    Agree R (tryMethod kernel method lockAddr) (tryMethod kernel method lockAddr) :=
  .bind hmethod fun _ => .ite (agree_isUnlocked h) (.pure _)

theorem agree_tryMethods (h : CallSimulation kernel lockAddr R) :
    Agree R (tryMethods kernel lockAddr) (tryMethods kernel lockAddr) := by
  refine .bind (agree_tryMethod h (agree_unlockWithProcessVm h)) fun _ => ?_
  refine .ite (.pure _) (.bind (agree_tryMethod h (agree_unlockWithProcMem h)) fun _ => ?_)
  exact .ite (.pure _) (agree_tryMethod h (agree_unlockWithPtrace h))

end agree

section preserves

variable {I : FutexUnlocker → Prop} {lockAddr : Addr}

theorem CallInvariant.simulation (h : CallInvariant kernel lockAddr I) :
    CallSimulation kernel lockAddr fun u v => u = v ∧ I u where
  call c hc := .of_preserves (h.call c hc)
  attached u _ huv :=
    ⟨congrArg (fun w : FutexUnlocker => { w with ptraceAttached := true }) huv.1, h.attached u huv.2⟩
  memory _ _ huv := congrArg FutexUnlocker.memory huv.1
  ptraceAttached _ _ huv := congrArg FutexUnlocker.ptraceAttached huv.1

theorem preserves_isUnlocked (h : CallInvariant kernel lockAddr I) :
    Preserves I (isUnlocked kernel lockAddr) :=
  (agree_isUnlocked h.simulation).preserves

theorem preserves_tryMethods (h : CallInvariant kernel lockAddr I) :
    Preserves I (tryMethods kernel lockAddr) :=
  (agree_tryMethods h.simulation).preserves

theorem preserves_attempts (h : UnlockInvariant kernel lockAddr I) (n : Nat) :
    Preserves I (attempts kernel lockAddr n) := by
  induction n with
  | zero => exact .pure _
  | succ n ih =>
    refine .bind (preserves_tryMethods h.toCallInvariant) fun _ => .ite ?_ ih
    exact .bind (.modify fun u => h.counters u u.totalAttempts _) fun _ => .pure _

theorem preserves_unlock (h : UnlockInvariant kernel lockAddr I) (maxAttempts : Nat) :
    Preserves I (unlock kernel lockAddr maxAttempts) := by
  refine .bind (.modify fun u => h.counters u _ u.successfulUnlocks) fun _ => ?_
  refine .bind (preserves_isUnlocked h.toCallInvariant) fun _ => .ite ?_ (preserves_attempts h maxAttempts)
  exact .bind (.modify fun u => h.counters u u.totalAttempts _) fun _ => .pure _

theorem preserves_unlockMultiple {lockAddrs : List Addr} (h : ∀ addr ∈ lockAddrs, UnlockInvariant kernel addr I)
    (maxAttempts : Nat) : Preserves I (unlockMultiple kernel maxAttempts lockAddrs) := by
  induction lockAddrs with
  | nil => exact .pure _
  | cons addr lockAddrs ih =>
    refine .bind (preserves_unlock (h addr List.mem_cons_self) maxAttempts) fun _ => ?_
    exact .bind (ih fun a ha => h a (List.mem_cons_of_mem addr ha)) fun _ => .pure _

end preserves

theorem unlockInvariant_accounted (kernel : Kernel) (memory : Memory) (lockAddr : Addr) :
    UnlockInvariant kernel lockAddr (Accounted kernel memory) where
  call c _ _ h := h.call c
  attached _ h := ⟨h.zero, h.frame, h.replies⟩
  counters _ _ _ h := ⟨h.zero, h.frame, h.replies⟩

end FutexUnlocker

theorem toNat_lt_four : ∀ i ∈ ([0, 1, 2, 3] : List Addr), i.toNat < 4 := by
  simp only [List.forall_mem_cons]
  exact ⟨Nat.zero_lt_succ 3, by decide, by decide, by decide, fun _ h => absurd h List.not_mem_nil⟩

theorem Memory.word_eq_zero_iff {memory : Memory} {a : Addr} :
    memory.word a = 0 ↔ ∀ i ∈ [0, 1, 2, 3], memory (a + i) = 0 := by
  simp only [Memory.word, List.forall_mem_cons, add_zero]
  simp [← UInt8.toNat_inj, Nat.add_eq_zero_iff, and_assoc]

theorem FutexUnlocker.Accounted.word_eq_zero_iff {kernel : Kernel} {memory : Memory} {u : FutexUnlocker}
    (h : Accounted kernel memory u) (a : Addr) :
    u.memory.word a = 0 ↔ ∀ i ∈ [0, 1, 2, 3], memory (a + i) ≠ 0 → Overwritten u.log (a + i) := by
  have hbyte : ∀ b, u.memory b = 0 ↔ (memory b ≠ 0 → Overwritten u.log b) := by
    intro b
    by_cases hb : Overwritten u.log b
    . simp [h.zero b hb, hb]
    . simp [h.frame b hb, hb]
  rw [Memory.word_eq_zero_iff]
  simp only [hbyte]

end DeadlockInterceptor
