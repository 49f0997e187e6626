import DeadlockInterceptor.Lemmas.UnlockEffects

/-!
This module contains what `unlock` does to the bytes next to the futex word. `PTRACE_POKEDATA` writes a machine
word, which is longer than a futex.
-/

namespace DeadlockInterceptor

namespace FutexUnlocker

/--
`unlock`, called with an unlocker whose system calls are counted from now on, changes no byte outside of the word.
-/
def KeepsOthers (kernel : Kernel) (u : FutexUnlocker) (lockAddr : Addr) (maxAttempts : Nat) : Prop :=
  ∀ a : Addr, ¬(a - lockAddr).toNat < 4 →
    ((unlock kernel lockAddr maxAttempts).run { u with log := [] }).2.memory a = u.memory a

def Poked (u : FutexUnlocker) (addr : Addr) : Prop := ∃ n, (SysCall.pokeData addr, Reply.ok n) ∈ u.log

theorem unlockInvariant_isFor (kernel : Kernel) (lockAddr : Addr) :
    UnlockInvariant kernel lockAddr fun u => ∀ e ∈ u.log, e.1.IsFor lockAddr where
  call c hc u h := by
    intro e he
    rcases List.mem_append.mp he with he | he
    . exact h e he
    . rw [List.mem_singleton.mp he]
      exact hc
  attached _ h := h
  counters _ _ _ h := h

theorem unlockInvariant_mem_log (kernel : Kernel) (lockAddr : Addr) (e : SysCall × Reply) :
    UnlockInvariant kernel lockAddr fun u => e ∈ u.log where
  call _ _ _ h := List.mem_append_left _ h
  attached _ h := h
  counters _ _ _ h := h

theorem written_cases {c : SysCall} {reply : Reply} {lockAddr addr : Addr} {n : Nat} (hc : c.IsFor lockAddr)
    (h : c.written reply = some (addr, n)) :
    (addr = lockAddr ∧ n ≤ 4) ∨
      ∃ i ∈ [0, 1, 2, 3], ∃ k, addr = lockAddr + i ∧ n = 8 ∧ c = .pokeData (lockAddr + i) ∧ reply = .ok k := by
  cases c with
  | processVmWritev a =>
    cases reply with
    | ok k =>
      obtain ⟨rfl, rfl⟩ := Prod.mk.inj (Option.some.inj h)
      exact .inl ⟨hc, Nat.min_le_right k 4⟩
    | error _ => cases h
  | pwrite a =>
    cases reply with
    | ok k =>
      obtain ⟨rfl, rfl⟩ := Prod.mk.inj (Option.some.inj h)
      exact .inl ⟨hc, Nat.min_le_right k 4⟩
    | error _ => cases h
  | pokeData a =>
    cases reply with
    | ok k =>
      obtain ⟨rfl, rfl⟩ := Prod.mk.inj (Option.some.inj h)
      obtain ⟨i, hi, rfl⟩ := hc
      exact .inr ⟨i, hi, k, rfl, rfl, rfl, rfl⟩
    | error _ => cases h
  | _ => cases h

theorem keepsOthers_iff_poked (kernel : Kernel) (u : FutexUnlocker) (lockAddr : Addr) (maxAttempts : Nat) :
    KeepsOthers kernel u lockAddr maxAttempts
      ↔
    ∀ i ∈ [0, 1, 2, 3], Poked ((unlock kernel lockAddr maxAttempts).run { u with log := [] }).2 (lockAddr + i) →
      ∀ a : Addr, (a - (lockAddr + i)).toNat < 8 → ¬(a - lockAddr).toNat < 4 → u.memory a = 0 := by
  have haccounted := preserves_unlock (unlockInvariant_accounted kernel u.memory lockAddr) maxAttempts
    { u with log := [] }
    ⟨fun a ⟨e, he, _⟩ => absurd he List.not_mem_nil, fun _ _ => rfl, fun k e he => by simp at he⟩
  have hfor := preserves_unlock (unlockInvariant_isFor kernel lockAddr) maxAttempts { u with log := [] }
    fun e he => absurd he List.not_mem_nil
  constructor
  . rintro h i hi ⟨n, hpoked⟩ a ha hout
    rw [← h a hout]
    exact haccounted.zero a ⟨_, hpoked, lockAddr + i, 8, rfl, ha⟩
  . intro h a hout
    by_cases hover : Overwritten ((unlock kernel lockAddr maxAttempts).run { u with log := [] }).2.log a
    . rw [haccounted.zero a hover]
      obtain ⟨⟨c, reply⟩, he, addr, n, hwritten, ha⟩ := hover
      rcases written_cases (hfor _ he) hwritten with ⟨rfl, hn⟩ | ⟨i, hi, k, rfl, rfl, rfl, rfl⟩
      . exact absurd (Nat.lt_of_lt_of_le ha hn) hout
      . exact (h i hi ⟨k, he⟩ a ha hout).symm
    . exact haccounted.frame a hover

section poking

/--
The kernel that refuses all but attaching and, after the first `PTRACE_POKEDATA`, the next four.
-/
def pokingKernel (attached : Bool) : Kernel where
  reply k :=
    if attached then
      if 5 ≤ k ∧ k ≤ 8 then .ok 0 else .error 5
    else
      if k = 4 ∨ (7 ≤ k ∧ k ≤ 10) then .ok 0 else .error 5
  getpid := 0

theorem run_call (kernel : Kernel) (u : FutexUnlocker) (c : SysCall) :
    (call kernel c).run u
      =
    pure (kernel.reply u.log.length, { u with
      memory := match c.written (kernel.reply u.log.length) with
        | some (addr, n) => u.memory.zero addr n
        | none => u.memory
      log := u.log ++ [(c, kernel.reply u.log.length)] }) := rfl

variable (memory : Memory) (attached : Bool) (m n : Nat) (lockAddr : Addr)

theorem run_isUnlocked_pokingKernel :
    (isUnlocked (pokingKernel attached) lockAddr).run ⟨memory, attached, m, n, []⟩
      =
    (false, ⟨memory, attached, m, n, [(.processVmReadv lockAddr, .error 5), (.openMemRdonly, .error 5)]⟩) := by
  cases attached <;> rfl

theorem poked_tryMethods (e e' : SysCall × Reply) :
    (SysCall.pokeData (lockAddr + 3), Reply.ok 0) ∈
      ((tryMethods (pokingKernel attached) lockAddr).run ⟨memory, attached, m, n, [e, e']⟩).2.log := by
  change _ ∈ (Id.run ((tryMethods (pokingKernel attached) lockAddr).run ⟨memory, attached, m, n, [e, e']⟩)).2.log
  cases attached with
  | true =>
    simp [tryMethods, tryMethod, unlockWithProcessVm, unlockWithProcMem, unlockWithPtrace, poke, pokeBytes,
      wakeFutex, isUnlocked, readProcessMemory, run_call, SysCall.written, pokingKernel]
  | false =>
    simp [tryMethods, tryMethod, unlockWithProcessVm, unlockWithProcMem, unlockWithPtrace, attach, poke, pokeBytes,
      wakeFutex, isUnlocked, readProcessMemory, run_call, SysCall.written, pokingKernel]

theorem poked_unlock (u : FutexUnlocker) (lockAddr : Addr) (k : Nat) :
    Poked ((unlock (pokingKernel u.ptraceAttached) lockAddr (k + 1)).run { u with log := [] }).2
      (lockAddr + 3) := by
  have hinvariant := unlockInvariant_mem_log (pokingKernel u.ptraceAttached) lockAddr
    (SysCall.pokeData (lockAddr + 3), Reply.ok 0)
  have hattempts : Ensures
      (fun v => v = ⟨u.memory, u.ptraceAttached, u.totalAttempts + 1, u.successfulUnlocks,
        [(.processVmReadv lockAddr, .error 5), (.openMemRdonly, .error 5)]⟩)
      (attempts (pokingKernel u.ptraceAttached) lockAddr (k + 1))
      fun _ v => (SysCall.pokeData (lockAddr + 3), Reply.ok 0) ∈ v.log := by
    refine .bind (Q := fun _ v => (SysCall.pokeData (lockAddr + 3), Reply.ok 0) ∈ v.log) ?_ fun success => ?_
    . rintro v rfl
      exact poked_tryMethods u.memory u.ptraceAttached _ _ lockAddr _ _
    . refine .ite (fun _ => ?_) fun _ => preserves_attempts hinvariant k
      exact .bind (.modify (Q := fun _ v => _ ∈ v.log) fun v h => h) fun _ => .pure fun _ h => h
  have hunlock : Ensures (fun v => v = { u with log := [] })
      (unlock (pokingKernel u.ptraceAttached) lockAddr (k + 1))
      fun _ v => (SysCall.pokeData (lockAddr + 3), Reply.ok 0) ∈ v.log := by
    refine .bind (.modify (Q := fun _ v => v =
      ⟨u.memory, u.ptraceAttached, u.totalAttempts + 1, u.successfulUnlocks, []⟩) ?_) fun _ => ?_
    . rintro v rfl
      rfl
    refine .bind_eq (a := false) ?_ hattempts
    rintro v rfl
    rw [run_isUnlocked_pokingKernel]
    exact ⟨rfl, rfl⟩
  exact ⟨0, hunlock _ rfl⟩

end poking

section offsets

variable {a lockAddr : Addr}

theorem toNat_sub_lt {i : Addr} (hi : i ∈ [0, 1, 2, 3]) (h : (a - (lockAddr + i)).toNat < 8) :
    (a - lockAddr).toNat < 11 := by
  have heq : a - lockAddr = (a - (lockAddr + i)) + i := by
    rw [sub_add_eq_sub_sub, sub_add_cancel]
  have hi' := toNat_lt_four i hi
  rw [heq, UInt64.toNat_add]
  omega

theorem toNat_sub_three_lt (h : ¬(a - lockAddr).toNat < 4) (h' : (a - lockAddr).toNat < 11) :
    (a - (lockAddr + 3)).toNat < 8 := by
  have hthree : UInt64.toNat 3 = 3 := rfl
  rw [sub_add_eq_sub_sub, UInt64.toNat_sub_of_le]
  . omega
  . rw [UInt64.le_iff_toNat_le]
    omega

end offsets

theorem keepsOthers_zero (kernel : Kernel) (u : FutexUnlocker) (lockAddr : Addr) :
    KeepsOthers kernel u lockAddr 0 := by
  intro a _
  have hmemory := (ensures_unlock_zero kernel lockAddr u.memory { u with log := [] } rfl).2
  exact congrFun hmemory a

/--
With the given system calls the bytes outside of the word are kept exactly if what the successful calls of
`PTRACE_POKEDATA` overwrite there has been zero before. They are kept with all system calls exactly if this is so
for the seven bytes behind the word, or there is no attempt to write.
-/
theorem keepsOthers_iff (u : FutexUnlocker) (lockAddr : Addr) (maxAttempts : Nat) :
    (∀ kernel, KeepsOthers kernel u lockAddr maxAttempts
      ↔
      ∀ i ∈ [0, 1, 2, 3], Poked ((unlock kernel lockAddr maxAttempts).run { u with log := [] }).2 (lockAddr + i) →
        ∀ a : Addr, (a - (lockAddr + i)).toNat < 8 → ¬(a - lockAddr).toNat < 4 → u.memory a = 0) ∧
    ((∀ kernel, KeepsOthers kernel u lockAddr maxAttempts)
      ↔
      maxAttempts = 0 ∨
        ∀ a : Addr, ¬(a - lockAddr).toNat < 4 → (a - lockAddr).toNat < 11 → u.memory a = 0) := by
  refine ⟨fun kernel => keepsOthers_iff_poked kernel u lockAddr maxAttempts, ?_⟩
  constructor
  . intro h
    cases maxAttempts with
    | zero => exact .inl rfl
    | succ k =>
      right
      intro a hout hnear
      have hkeeps := (keepsOthers_iff_poked _ u lockAddr (k + 1)).mp (h (pokingKernel u.ptraceAttached))
      exact hkeeps 3 (by decide) (poked_unlock u lockAddr k) a (toNat_sub_three_lt hout hnear) hout
  . rintro (rfl | hzero) kernel
    . exact keepsOthers_zero kernel u lockAddr
    . rw [keepsOthers_iff_poked]
      intro i hi _ a ha hout
      exact hzero a hout (toNat_sub_lt hi ha)

/-- All bytes are 1, and only attaching and the first `PTRACE_POKEDATA` succeed. -/
theorem exists_overwritten : ¬∀ kernel u lockAddr maxAttempts, KeepsOthers kernel u lockAddr maxAttempts := by
  intro h
  have hkept := h ⟨fun k => if 4 ≤ k ∧ k ≤ 6 then .ok 0 else .error 5, 0⟩ { memory := fun _ => 1 } 0x10000 1
    0x10004 (by decide)
  revert hkept
  decide +kernel

end FutexUnlocker

end DeadlockInterceptor
