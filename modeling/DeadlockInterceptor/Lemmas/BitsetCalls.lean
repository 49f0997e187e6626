import DeadlockInterceptor.Lemmas.MonitoringFlag
import DeadlockInterceptor.Lemmas.Step
import DeadlockInterceptor.Spec.BitsetVariants

/-!
This module contains when a trace of futex calls and the trace with bitset variants in place of some of its
calls leave the same maps. A wait may be replaced. `FUTEX_WAKE_BITSET` however is routed to `on_wait`, so a
wake may be replaced only where it has no effect.
-/

namespace DeadlockInterceptor

namespace Tracker

theorem sameEntries_refl (s : Tracker) : s.SameEntries s := by
  constructor
  . intro a
    rfl
  . intro t
    rfl
  . intro t a
    rfl
  . exact ⟨fun _ => Iff.rfl, fun _ _ => Iff.rfl⟩
  . intro a
    rfl

theorem SameEntries.waiters {s s' : Tracker} (h : s.SameEntries s') (a : Addr) :
    s'.waiters a = s.waiters a := by
  simp only [Tracker.waiters, AList.getD, h.futexWaiters a]

theorem not_addsWaiter_of_sublist {s s' : Tracker} {t : ThreadName}
    (h : ∀ a, (s'.waiters a).Sublist (s.waiters a)) : ¬s.AddsWaiter s' t := by
  rintro ⟨a, hlt⟩
  have hle := (h a).count_le t
  omega

theorem onWake_waiters_sublist (s : Tracker) (a b : Addr) :
    ((s.onWake a).waiters b).Sublist (s.waiters b) := by
  rw [onWake_waiters]
  split
  . apply List.nil_sublist
  . apply List.Sublist.refl

theorem addsWaiter_onWait (s : Tracker) (now : Time) (t : ThreadName) (a : Addr) :
    s.AddsWaiter (s.onWait now t a) t := by
  refine ⟨a, ?_⟩
  rw [onWait_waiters, if_pos rfl, List.count_append, List.count_singleton_self]
  omega

theorem onWake_eq_self {s : Tracker} {a : Addr} (h : a ∉ s.futexWaiters) : s.onWake a = s := by
  simp only [onWake, AList.lookup_eq_none.mpr h]

theorem notMem_futexWaiters_onWake (s : Tracker) (a : Addr) : a ∉ (s.onWake a).futexWaiters := by
  unfold onWake
  split
  . next h => exact AList.lookup_eq_none.mp h
  . unfold refreshLockStats
    split <;> simp [AList.mem_erase]

end Tracker

def Regs.RoutedToWait (regs : Regs) : Prop :=
  regs.Futex futexWait ∨ regs.Futex futexWaitBitset ∨ regs.Futex futexWakeBitset

theorem Regs.RoutedToWait.not_wake {regs : Regs} (h : regs.RoutedToWait) : ¬regs.Futex futexWake := by
  intro hwake
  rcases h with h | h | h
  . exact absurd (h.op.symm.trans hwake.op) (by decide)
  . exact absurd (h.op.symm.trans hwake.op) (by decide)
  . exact absurd (h.op.symm.trans hwake.op) (by decide)

namespace GlobalState

variable {s : GlobalState} {env : Env} {tid : Pid} {regs : Regs} {a : Addr}

theorem handleSyscall_of_routedToWait (h : regs.RoutedToWait) :
    handleSyscall env tid (some regs) s = s.onWait env tid regs.rdi := by
  simp only [handleSyscall]
  rcases h with h | h | h
  . rw [if_pos h.syscall, if_pos h.op]
  . rw [if_pos h.syscall, h.op]
    rfl
  . rw [if_pos h.syscall, h.op]
    rfl

theorem handleSyscall_of_wake (h : regs.Futex futexWake) :
    handleSyscall env tid (some regs) s = (s.onWake env tid regs.rdi).onLock env tid regs.rdi := by
  simp only [handleSyscall]
  rw [if_pos h.syscall, h.op]
  rfl

theorem handleSyscall_of_other (hwait : ¬regs.RoutedToWait) (hwake : ¬regs.Futex futexWake) :
    handleSyscall env tid (some regs) s = s := by
  simp only [handleSyscall]
  split
  . next hcall =>
    split
    . next hop => exact absurd (.inl ⟨hcall, hop⟩) hwait
    . split
      . next hop => exact absurd ⟨hcall, hop⟩ hwake
      . split
        . next hop => exact absurd (.inr (hop.imp (⟨hcall, ·⟩) (⟨hcall, ·⟩))) hwait
        . rfl
  . rfl

theorem onWait_toTracker (ha : junkAddr a = false) :
    (s.onWait env tid a).toTracker
      =
    s.toTracker.onWait env.now (s.threadIdentifier env.proc tid).1 a := by
  simp only [onWait, ha]
  rfl

theorem onWait_of_junk (ha : junkAddr a = true) : s.onWait env tid a = s := by
  simp only [onWait, ha, ↓reduceIte]

theorem onWake_onLock_toTracker (ha : junkAddr a = false) :
    ((s.onWake env tid a).onLock env tid a).toTracker
      =
    (s.toTracker.onWake a).onLock env.now (s.threadIdentifier env.proc tid).1 a := by
  have hstep := step_of_wake s (e := ⟨.wake, tid, a, env⟩) rfl
  rw [← hstep]
  exact step_wake_toTracker rfl ha

theorem onWake_onLock_of_junk (ha : junkAddr a = true) :
    ((s.onWake env tid a).onLock env tid a).toTracker = s.toTracker.onWake a := by
  simp only [onLock, ha, ↓reduceIte]
  rfl

theorem onWake_onLock_waiters_sublist (b : Addr) :
    (((s.onWake env tid a).onLock env tid a).waiters b).Sublist (s.waiters b) := by
  have hwake := s.toTracker.onWake_waiters_sublist a b
  cases ha : junkAddr a with
  | true =>
    rw [onWake_onLock_of_junk ha]
    exact hwake
  | false =>
    rw [onWake_onLock_toTracker ha, Tracker.onLock_waiters]
    exact List.filter_sublist.trans hwake

end GlobalState

namespace CallPair

variable (c : CallPair)

theorem rdi_eq : c.regs'.rdi = c.regs.rdi := by
  rcases c.same_or_variant with h | h
  . rw [h]
  . exact h.1

theorem cases :
    (c.regs.RoutedToWait ∧ c.regs'.RoutedToWait ∧
      (c.regs.Futex futexWakeBitset → c.regs'.Futex futexWakeBitset)) ∨
    (c.regs.Futex futexWake ∧ c.regs'.Futex futexWake) ∨
    (c.regs.Futex futexWake ∧ c.regs'.Futex futexWakeBitset) ∨
    (c.regs' = c.regs ∧ ¬c.regs.RoutedToWait ∧ ¬c.regs.Futex futexWake) := by
  rcases c.same_or_variant with h | ⟨-, ⟨hwait, hvariant⟩ | ⟨hwake, hvariant⟩⟩
  . by_cases hwait : c.regs.RoutedToWait
    . rw [h]
      exact .inl ⟨hwait, hwait, id⟩
    . by_cases hwake : c.regs.Futex futexWake
      . rw [h]
        exact .inr (.inl ⟨hwake, hwake⟩)
      . exact .inr (.inr (.inr ⟨h, hwait, hwake⟩))
  . refine .inl ⟨.inl hwait, .inr (.inl hvariant), ?_⟩
    intro hbitset
    exact absurd (hwait.op.symm.trans hbitset.op) (by decide)
  . exact .inr (.inr (.inl ⟨hwake, hvariant⟩))

end CallPair

namespace TwoRuns

/--
A wake is replaced, or called as `FUTEX_WAKE_BITSET` in both traces, only with an implausible address, and
replaced only if nobody is registered there. Where a call reaches the maps, the two runs know its thread
under the same identifier.
-/
structure KeepsMaps (p : TwoRuns) (c : CallPair) : Prop where
  junk : c.regs'.Futex futexWakeBitset → junkAddr c.regs.rdi = true
  unregistered : c.regs.Futex futexWake → c.regs'.Futex futexWakeBitset →
    c.regs.rdi ∉ p.1.futexWaiters
  named : c.regs.RoutedToWait ∨ c.regs.Futex futexWake → junkAddr c.regs.rdi = false →
    (p.2.threadIdentifier c.env.proc c.tid).1 = (p.1.threadIdentifier c.env.proc c.tid).1

def SameTracker (p : TwoRuns) : Prop := p.2.toTracker = p.1.toTracker

variable {p : TwoRuns} {c : CallPair}

theorem agree_of_sameTracker (h : p.SameTracker) : p.Agree := by
  unfold Agree
  rw [h]
  apply Tracker.sameEntries_refl

theorem step_of_waits (h : c.regs.RoutedToWait) (h' : c.regs'.RoutedToWait) :
    p.step c = (p.1.onWait c.env c.tid c.regs.rdi, p.2.onWait c.env c.tid c.regs.rdi) := by
  simp only [step, GlobalState.handleSyscall_of_routedToWait h,
    GlobalState.handleSyscall_of_routedToWait h', c.rdi_eq]

theorem step_of_wakes (h : c.regs.Futex futexWake) (h' : c.regs'.Futex futexWake) :
    p.step c
      =
    ((p.1.onWake c.env c.tid c.regs.rdi).onLock c.env c.tid c.regs.rdi,
      (p.2.onWake c.env c.tid c.regs.rdi).onLock c.env c.tid c.regs.rdi) := by
  simp only [step, GlobalState.handleSyscall_of_wake h, GlobalState.handleSyscall_of_wake h', c.rdi_eq]

theorem step_of_replaced (h : c.regs.Futex futexWake) (h' : c.regs'.Futex futexWakeBitset) :
    p.step c
      =
    ((p.1.onWake c.env c.tid c.regs.rdi).onLock c.env c.tid c.regs.rdi,
      p.2.onWait c.env c.tid c.regs.rdi) := by
  have hwait : c.regs'.RoutedToWait := .inr (.inr h')
  simp only [step, GlobalState.handleSyscall_of_wake h, GlobalState.handleSyscall_of_routedToWait hwait,
    c.rdi_eq]

theorem step_of_other (heq : c.regs' = c.regs) (hwait : ¬c.regs.RoutedToWait)
    (hwake : ¬c.regs.Futex futexWake) : p.step c = p := by
  simp only [step, heq, GlobalState.handleSyscall_of_other hwait hwake]

theorem sameTracker_step (hp : p.SameTracker) (h : p.KeepsMaps c) : (p.step c).SameTracker := by
  unfold SameTracker at *
  obtain ⟨hwait, hwait', -⟩ | ⟨hwake, hwake'⟩ | ⟨hwake, hbitset⟩ | ⟨heq, hwait, hwake⟩ := c.cases
  . rw [step_of_waits hwait hwait']
    cases ha : junkAddr c.regs.rdi with
    | true => rw [GlobalState.onWait_of_junk ha, GlobalState.onWait_of_junk ha, hp]
    | false =>
      rw [GlobalState.onWait_toTracker ha, GlobalState.onWait_toTracker ha, hp,
        h.named (.inl hwait) ha]
  . rw [step_of_wakes hwake hwake']
    cases ha : junkAddr c.regs.rdi with
    | true => rw [GlobalState.onWake_onLock_of_junk ha, GlobalState.onWake_onLock_of_junk ha, hp]
    | false =>
      rw [GlobalState.onWake_onLock_toTracker ha, GlobalState.onWake_onLock_toTracker ha, hp,
        h.named (.inr hwake) ha]
  . have ha := h.junk hbitset
    rw [step_of_replaced hwake hbitset, GlobalState.onWake_onLock_of_junk ha,
      GlobalState.onWait_of_junk ha, Tracker.onWake_eq_self (h.unregistered hwake hbitset), hp]
  . rw [step_of_other heq hwait hwake, hp]

theorem wakesUnregistered_of_keepsMaps (h : p.KeepsMaps c) : p.WakesUnregistered c := by
  have hself : ∀ (s : Tracker) (t : ThreadName), ¬s.AddsWaiter s t := fun s t =>
    Tracker.not_addsWaiter_of_sublist fun _ => List.Sublist.refl _
  obtain ⟨hwait, hwait', hboth⟩ | ⟨hwake, hwake'⟩ | ⟨hwake, hbitset⟩ | ⟨heq, hwait, hwake⟩ := c.cases
  . constructor
    . intro hkind
      have hbitset := hkind.resolve_left hwait.not_wake
      rw [step_of_waits hwait hwait', GlobalState.onWait_of_junk (h.junk (hboth hbitset))]
      apply hself
    . intro hkind
      have hbitset := hkind.resolve_left hwait'.not_wake
      rw [step_of_waits hwait hwait', GlobalState.onWait_of_junk (s := p.2) (h.junk hbitset)]
      apply hself
  . rw [WakesUnregistered, step_of_wakes hwake hwake']
    constructor
    . intro _
      exact Tracker.not_addsWaiter_of_sublist fun _ => GlobalState.onWake_onLock_waiters_sublist _
    . intro _
      exact Tracker.not_addsWaiter_of_sublist fun _ => GlobalState.onWake_onLock_waiters_sublist _
  . rw [WakesUnregistered, step_of_replaced hwake hbitset]
    constructor
    . intro _
      exact Tracker.not_addsWaiter_of_sublist fun _ => GlobalState.onWake_onLock_waiters_sublist _
    . intro _
      rw [GlobalState.onWait_of_junk (h.junk hbitset)]
      apply hself
  . rw [WakesUnregistered, step_of_other heq hwait hwake]
    constructor
    . intro _
      apply hself
    . intro _
      apply hself

theorem keepsMaps_of_agree_step (hp : p.SameTracker) (hagree : (p.step c).Agree)
    (hwakes : p.WakesUnregistered c) : p.KeepsMaps c := by
  have hjunk : c.regs'.Futex futexWakeBitset → junkAddr c.regs.rdi = true := by
    intro hbitset
    cases ha : junkAddr c.regs.rdi with
    | true => rfl
    | false =>
      apply absurd (hwakes.2 (.inr hbitset))
      have hstep : (p.step c).2 = p.2.onWait c.env c.tid c.regs.rdi := by
        simp only [step, GlobalState.handleSyscall_of_routedToWait (.inr (.inr hbitset)), c.rdi_eq]
      rw [hstep, GlobalState.onWait_toTracker ha, not_not]
      apply Tracker.addsWaiter_onWait
  refine ⟨hjunk, ?_, ?_⟩
  . intro hwake hbitset
    have ha := hjunk hbitset
    have hentry := hagree.futexWaiters c.regs.rdi
    rw [step_of_replaced hwake hbitset, GlobalState.onWake_onLock_of_junk ha,
      GlobalState.onWait_of_junk ha, hp,
      AList.lookup_eq_none.mpr (Tracker.notMem_futexWaiters_onWake _ _)] at hentry
    exact AList.lookup_eq_none.mp hentry
  . intro hkind ha
    obtain ⟨hwait, hwait', -⟩ | ⟨hwake, hwake'⟩ | ⟨hwake, hbitset⟩ | ⟨heq, hwait, hwake⟩ := c.cases
    . have hqueue := hagree.waiters c.regs.rdi
      rw [step_of_waits hwait hwait', GlobalState.onWait_toTracker ha, GlobalState.onWait_toTracker ha,
        hp, Tracker.onWait_waiters, Tracker.onWait_waiters, if_pos rfl, if_pos rfl] at hqueue
      exact List.singleton_inj.mp (List.append_cancel_left hqueue)
    . have howner : (p.step c).2.owner c.regs.rdi = (p.step c).1.owner c.regs.rdi :=
        hagree.lockOwners c.regs.rdi
      rw [step_of_wakes hwake hwake', GlobalState.onWake_onLock_toTracker ha,
        GlobalState.onWake_onLock_toTracker ha, Tracker.onLock_owner, Tracker.onLock_owner,
        if_pos rfl, if_pos rfl] at howner
      exact Option.some.inj howner
    . exact absurd (hjunk hbitset) (by simp [ha])
    . exact absurd hkind (not_or.mpr ⟨hwait, hwake⟩)

/--
The maps of the two runs agree after every call, and no wake registers its caller, exactly if the bitset
variant of a wake stands only where it has no effect.
-/
theorem agree_run_iff (s : GlobalState) (calls : List CallPair) :
    (Run.States step Agree (s, s) calls ∧ Run.Steps step WakesUnregistered (s, s) calls)
      ↔
    Run.Steps step KeepsMaps (s, s) calls := by
  apply Run.states_and_steps_iff (K := SameTracker)
  . exact fun _ h => agree_of_sameTracker h
  . exact fun _ _ hp h => ⟨sameTracker_step hp h, wakesUnregistered_of_keepsMaps h⟩
  . exact fun _ _ hp hagree hwakes => keepsMaps_of_agree_step hp hagree hwakes
  . rfl

def wakeReplaced : CallPair where
  env := .bare
  tid := 1
  regs := ⟨sysFutex, 0x10000, 1⟩
  regs' := ⟨sysFutex, 0x10000, 10⟩
  same_or_variant := .inr ⟨rfl, .inr ⟨by decide, by decide⟩⟩

theorem exists_apart : ¬∀ (s : GlobalState) (calls : List CallPair), (calls.foldl step (s, s)).Agree := by
  intro h
  have hagree := h .init [wakeReplaced]
  have hlookup := hagree.lockOwners 0x10000
  exact absurd hlookup (by decide)

/--
The replacement of waits is safe: the two runs never differ.
-/
theorem eq_run_of_waits (s : GlobalState) {calls : List CallPair}
    (h : ∀ c ∈ calls, ¬c.regs'.Futex futexWakeBitset) :
    (calls.foldl step (s, s)).2 = (calls.foldl step (s, s)).1 := by
  apply Run.foldl_invariant_mem (I := fun p : TwoRuns => p.2 = p.1)
  . intro p c hc hp
    obtain ⟨hwait, hwait', -⟩ | ⟨hwake, hwake'⟩ | ⟨-, hbitset⟩ | ⟨heq, hwait, hwake⟩ := c.cases
    . rw [step_of_waits hwait hwait', hp]
    . rw [step_of_wakes hwake hwake', hp]
    . exact absurd hbitset (h c hc)
    . rw [step_of_other heq hwait hwake]
      exact hp
  . rfl

end TwoRuns

end DeadlockInterceptor
