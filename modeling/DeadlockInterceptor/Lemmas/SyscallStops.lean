import DeadlockInterceptor.Lemmas.Identifiers
import DeadlockInterceptor.Lemmas.Pass
import DeadlockInterceptor.Spec.SyscallStops

/-!
This module contains when a thread whose wait has returned is still registered as a waiter. The loop of
`main` hands both stops of a call to the same handler, so the exit stop of a wait registers the thread anew.
-/

namespace DeadlockInterceptor

def NotWaiting (s : Tracker) (tid : Pid) : Prop :=
  ∀ name, (∀ a, identifierOf name tid ∉ s.waiters a) ∧ ∀ u, ¬s.Waits (identifierOf name tid) u

theorem NotWaiting.mono {s s' : Tracker} {tid : Pid} (h : NotWaiting s tid)
    (hwaiters : ∀ a, s'.waiters a ⊆ s.waiters a) (hwaits : s'.Waits ≤ s.Waits) : NotWaiting s' tid := by
  intro name
  obtain ⟨hnone, hfree⟩ := h name
  constructor
  . intro a hmem
    apply hnone a
    exact hwaiters a hmem
  . intro u hu
    apply hfree u
    exact hwaits _ _ hu

theorem Tracker.Same.waiters_eq {s s' : Tracker} (h : s.Same s') (a : Addr) :
    s'.waiters a = s.waiters a := by
  rw [Tracker.waiters, AList.getD, h.futexWaiters]
  rfl

theorem Tracker.Same.notWaiting_iff {s s' : Tracker} (h : s.Same s') (tid : Pid) :
    NotWaiting s' tid ↔ NotWaiting s tid := by
  have hedge : ∀ t u, s'.Waits t u ↔ s.Waits t u := h.waitsFor.edge
  simp only [NotWaiting, h.waiters_eq, hedge]

def Regs.registers (regs : Regs) : Bool :=
  (regs.isWait || regs.isFutexOp futexWakeBitset) && !junkAddr regs.rdi

section handler

variable {s : GlobalState} {env : Env} {tid : Pid} {regs : Regs}

theorem handleSyscall_cases (env : Env) (tid : Pid) (regs : Regs) (s : GlobalState) :
    (regs.registers = true ∧ handleSyscall env tid (some regs) s = s.onWait env tid regs.rdi) ∨
    (regs.registers = false ∧ regs.isWait = false ∧
      handleSyscall env tid (some regs) s = (s.onWake env tid regs.rdi).onLock env tid regs.rdi) ∨
    (regs.registers = false ∧ handleSyscall env tid (some regs) s = s) := by
  have hjunk : junkAddr regs.rdi = true → s.onWait env tid regs.rdi = s := by
    intro h
    rw [GlobalState.onWait, if_pos h]
  unfold handleSyscall Regs.registers Regs.isWait Regs.isFutexOp
  simp only
  generalize (regs.rsi &&& futexCmdMask).toUInt32 = op
  by_cases hsys : regs.origRax = sysFutex
  . by_cases hwake : op = futexWake
    . subst hwake
      refine .inr (.inl ⟨?_, ?_, ?_⟩)
      . simp [hsys, futexWake, futexWait, futexWaitBitset, futexWakeBitset]
      . simp [hsys, futexWake, futexWait, futexWaitBitset]
      . simp [hsys, futexWake, futexWait]
    . by_cases hwait : op = futexWait ∨ op = futexWaitBitset ∨ op = futexWakeBitset
      . have hcall : (if op = futexWait then s.onWait env tid regs.rdi
            else if op = futexWake then (s.onWake env tid regs.rdi).onLock env tid regs.rdi
            else if op = futexWaitBitset ∨ op = futexWakeBitset then s.onWait env tid regs.rdi else s)
              = s.onWait env tid regs.rdi := by
          rw [if_neg hwake]
          split
          . rfl
          . next hne => rw [if_pos (hwait.resolve_left hne)]
        rw [if_pos hsys, hcall]
        cases ha : junkAddr regs.rdi with
        | false =>
          refine .inl ⟨?_, rfl⟩
          simpa [hsys, or_assoc] using hwait
        | true =>
          refine .inr (.inr ⟨?_, hjunk ha⟩)
          simp
      . rw [not_or, not_or] at hwait
        refine .inr (.inr ⟨?_, ?_⟩)
        . simp [hwait]
        . simp [hsys, hwait, hwake]
  . exact .inr (.inr ⟨by simp [hsys], by simp [hsys]⟩)

theorem notWaiting_onWait {tid' : Pid} (h : NotWaiting s.toTracker tid') (hne : tid' ≠ tid)
    (addr : Addr) : NotWaiting (s.onWait env tid addr).toTracker tid' := by
  unfold GlobalState.onWait
  split
  . exact h
  . intro name
    have hname : ∀ name', identifierOf name tid' ≠ identifierOf name' tid :=
      fun name' heq => hne (identifierOf_injective heq)
    obtain ⟨hnone, hfree⟩ := h name
    constructor
    . intro a hmem
      have hmem' : identifierOf name tid'
          ∈ (s.toTracker.onWait env.now (s.threadIdentifier env.proc tid).1 addr).waiters a := hmem
      rw [Tracker.onWait_waiters] at hmem'
      split at hmem'
      . rcases List.mem_append.mp hmem' with hold | hnew
        . exact hnone addr hold
        . exact hname _ (List.mem_singleton.mp hnew)
      . exact hnone a hmem'
    . intro u hu
      rcases (Tracker.onWait_waits _ _ _ _ _ u).mp hu with hold | ⟨heq, -⟩
      . exact hfree u hold
      . exact hname _ heq

theorem notWaiting_handleSyscall {tid' : Pid} (h : NotWaiting s.toTracker tid') (regs : Option Regs)
    (hne : tid' ≠ tid ∨ ∀ r ∈ regs, r.registers = false) :
    NotWaiting (handleSyscall env tid regs s).toTracker tid' := by
  cases regs with
  | none => exact h
  | some regs =>
    rcases handleSyscall_cases env tid regs s with ⟨hreg, heq⟩ | ⟨-, -, heq⟩ | ⟨-, heq⟩
    . rw [heq]
      apply notWaiting_onWait h
      apply hne.resolve_right
      intro hnone
      rw [hnone regs rfl] at hreg
      simp at hreg
    . rw [heq]
      apply h.mono
      . intro a
        apply List.Subset.trans
        . apply GlobalState.onLock_waiters_subset
        . apply GlobalState.onWake_waiters_subset
      . intro t u htu
        exact GlobalState.onWake_waits_le t u (GlobalState.onLock_waits_le t u htu)
    . rw [heq]
      exact h

theorem not_notWaiting_of_registers (hreg : regs.registers = true) :
    ¬NotWaiting (handleSyscall env tid (some regs) s).toTracker tid := by
  intro h
  rcases handleSyscall_cases env tid regs s with ⟨-, heq⟩ | ⟨hnot, -⟩ | ⟨hnot, -⟩
  . rw [heq] at h
    have hjunk : junkAddr regs.rdi = false := by
      rw [Regs.registers, Bool.and_eq_true] at hreg
      simpa using hreg.2
    apply (h (getThreadName s.targetPid env.proc tid s.threadInfoCache).1).1 regs.rdi
    simp only [GlobalState.onWait, hjunk, Bool.false_eq_true, ↓reduceIte]
    rw [Tracker.onWait_waiters, if_pos rfl]
    apply List.mem_append_right
    apply List.mem_singleton_self
  . rw [hreg] at hnot
    simp at hnot
  . rw [hreg] at hnot
    simp at hnot

theorem notWaiting_of_handleSyscall {regs : Option Regs}
    (h : NotWaiting (handleSyscall env tid regs s).toTracker tid) :
    (∀ r ∈ regs, r.registers = false) ∧ (NotWaiting s.toTracker tid ∨ ∃ r ∈ regs, r.isWait = false) := by
  cases regs with
  | none => exact ⟨by simp, .inl h⟩
  | some regs =>
    have hregisters : regs.registers = false := by
      by_contra hreg
      exact not_notWaiting_of_registers (Bool.not_eq_false _ ▸ hreg) h
    constructor
    . intro r hr
      rwa [← Option.mem_some_iff.mp hr]
    . rcases handleSyscall_cases env tid regs s with ⟨hreg, -⟩ | ⟨-, hwait, -⟩ | ⟨-, heq⟩
      . rw [hregisters] at hreg
        simp at hreg
      . exact .inr ⟨regs, rfl, hwait⟩
      . rw [heq] at h
        exact .inl h

end handler

namespace World

theorem emergencyDeadlockBreak_waiters (env : EmergencyEnv) (deadlock : DeadlockInfo) (w : World)
    (a : Addr) : (w.emergencyDeadlockBreak env deadlock).2.waiters a = w.waiters a := by
  unfold emergencyDeadlockBreak
  split <;> rfl

theorem cleanVictim_waiters_subset (s : Tracker) (victimName : ThreadName) (locks : List Addr) (a : Addr) :
    (s.cleanVictim victimName locks).waiters a ⊆ s.waiters a := by
  intro t ht
  have hmap := AList.getD_mapVal (List.filter (· ≠ victimName)) s.futexWaiters a []
  have hfilter : t ∈ (s.waiters a).filter (· ≠ victimName) := by
    rw [Tracker.waiters, ← hmap]
    exact ht
  exact List.mem_of_mem_filter hfilter

theorem resolveDeadlockStrategy1_waiters_subset (env : Strategy1Env) (deadlock : DeadlockInfo) (w : World)
    (a : Addr) : (w.resolveDeadlockStrategy1 env deadlock).2.waiters a ⊆ w.waiters a :=
  resolveDeadlockStrategy1_rule (I := fun s => s.waiters a ⊆ w.waiters a) env deadlock w (List.Subset.refl _)
    fun victimName => cleanVictim_waiters_subset w.toTracker victimName deadlock.involvedLocks a

theorem resolveThreadDeadlock_waiters_subset (env : ResolveEnv) (cycle : List ThreadName) (w : World)
    (a : Addr) : (w.resolveThreadDeadlock env cycle).2.waiters a ⊆ w.waiters a := by
  apply resolveThreadDeadlock_rule (I := fun w' => w'.waiters a ⊆ w.waiters a)
  . intro deadlock w' h
    exact List.Subset.trans (resolveDeadlockStrategy1_waiters_subset env.strategy1 deadlock w' a) h
  . intro deadlock w' h
    rw [emergencyDeadlockBreak_waiters]
    exact h
  . exact fun _ _ _ h => h
  . apply List.Subset.refl

theorem resolveThreadDeadlock_waits_le (env : ResolveEnv) (cycle : List ThreadName) (w : World) :
    (w.resolveThreadDeadlock env cycle).2.Waits ≤ w.Waits :=
  (waits_of_resolveThreadDeadlock (Prod.eta (w.resolveThreadDeadlock env cycle)).symm).2

theorem notWaiting_handleEvent {w : World} {event : EventEnv} {tid tid' : Pid}
    (h : NotWaiting w.toTracker tid')
    (hne : tid' ≠ tid ∨ event.tidAlive = false ∨ ∀ r ∈ event.regs, r.registers = false) :
    (w.handleEvent event tid).Forall fun w' => NotWaiting w'.toTracker tid' := by
  apply forall_handleEvent
  . intro r cycle w' hw'
    exact hw'.mono (resolveThreadDeadlock_waiters_subset _ _ w') (resolveThreadDeadlock_waits_le _ _ w')
  . exact fun _ _ _ _ hw' => hw'
  . exact fun _ => h
  . intro halive
    rw [afterSyscall, (event.rehash_same _).notWaiting_iff]
    apply notWaiting_handleSyscall h
    apply hne.imp_right
    rintro (hdead | hregs)
    . rw [hdead] at halive
      simp at halive
    . exact hregs

end World

section dead

theorem findVictim_ne_some (l : List ThreadName) (victim : ThreadName × Pid) :
    findVictim (fun _ => false) l ≠ .ok (some victim) := by
  intro h
  rcases findVictim_cases (fun _ => false) l with ⟨_, _, _, _, -, -, -, hlive, -⟩ | ⟨_, -, _, -, herr⟩ | ⟨-, hnone⟩
  . simp at hlive
  . rw [h] at herr
    simp at herr
  . rw [h] at hnone
    simp at hnone

namespace World

theorem resolveThreadDeadlock_toTracker_of_dead (r : ThreadName) (cycle : List ThreadName) (w : World) :
    (w.resolveThreadDeadlock (ScanState.deadEnv r) cycle).2.toTracker = w.toTracker := by
  apply resolveThreadDeadlock_rule (I := fun w' => w'.toTracker = w.toTracker)
  . intro deadlock w' h
    rcases resolveDeadlockStrategy1_cases (ScanState.deadEnv r).strategy1 deadlock w' with
      ⟨e, -, heq⟩ | ⟨memory, heq⟩ | ⟨victimName, tid, run, status, hfind, -⟩
    . rw [heq]
      exact h
    . rw [heq]
      exact h
    . exact absurd hfind (findVictim_ne_some _ _)
  . intro deadlock w' h
    rcases emergencyDeadlockBreak_cases (ScanState.deadEnv r).emergency deadlock w' with
      ⟨e, -, heq⟩ | ⟨-, heq⟩ | ⟨victimName, tid, w'', hfind, -⟩
    . rw [heq]
      exact h
    . rw [heq]
      exact h
    . exact absurd hfind (findVictim_ne_some _ _)
  . exact fun _ _ _ h => h
  . rfl

theorem handleEvent_of_deadEnv {event : EventEnv} (halive : event.tidAlive = true) (tid : Pid) (w : World) :
    ∃ w', w.handleEvent (event.setResolve ScanState.deadEnv) tid = .returned w' ∧
      w'.toTracker = (w.afterSyscall event tid).toTracker := by
  have halive' : (event.setResolve ScanState.deadEnv).tidAlive = true := halive
  have hforall : (w.handleEvent (event.setResolve ScanState.deadEnv) tid).Forall
      fun w' => w'.toTracker = (w.afterSyscall event tid).toTracker := by
    apply forall_handleEvent
    . intro r cycle w' hw'
      exact (resolveThreadDeadlock_toTracker_of_dead r cycle w').trans hw'
    . exact fun _ _ _ _ hw' => hw'
    . intro hdead
      rw [halive'] at hdead
      simp at hdead
    . exact fun _ => rfl
  cases hevent : w.handleEvent (event.setResolve ScanState.deadEnv) tid with
  | returned w' =>
    rw [hevent] at hforall
    exact ⟨w', rfl, hforall⟩
  | thrown e w' => exact absurd hevent (handleEvent_ne_thrown _ _ w e w')
  | undefined =>
    exfalso
    have hpass : (w.afterSyscall (event.setResolve ScanState.deadEnv) tid).detectAndResolveDeadlocks
        (event.setResolve ScanState.deadEnv).pass ≠ .undefined :=
      detectAndResolveDeadlocks_ne_undefined
        fun r cycle w' => congrArg Tracker.waitsFor (resolveThreadDeadlock_toTracker_of_dead r cycle w')
    rw [handleEvent_of_tidAlive halive'] at hevent
    split at hevent
    . simp at hevent
    . exact hpass hevent

theorem notWaiting_of_handleEvent {event : EventEnv} {tid : Pid} {w : World}
    (h : ∀ w', w.handleEvent (event.setResolve ScanState.deadEnv) tid = .returned w' →
      NotWaiting w'.toTracker tid) :
    (event.tidAlive = false ∨ ∀ r ∈ event.regs, r.registers = false) ∧
      (NotWaiting w.toTracker tid ∨ ∃ r ∈ event.regs, r.isWait = false) := by
  cases halive : event.tidAlive with
  | false =>
    have hdead : (event.setResolve ScanState.deadEnv).tidAlive = false := halive
    exact ⟨.inl rfl, .inl (h w (handleEvent_of_dead hdead))⟩
  | true =>
    obtain ⟨w', hhandled, htracker⟩ := handleEvent_of_deadEnv halive tid w
    have hnot := h w' hhandled
    rw [htracker, afterSyscall, (event.rehash_same _).notWaiting_iff] at hnot
    obtain ⟨hregisters, hbefore⟩ := notWaiting_of_handleSyscall hnot
    exact ⟨.inr hregisters, hbefore⟩

end World

end dead

def Stop.isRecorded (stop : Stop) : Bool :=
  stop.tidAlive && stop.event.tidAlive &&
    match stop.event.regs with
    | none => false
    | some regs => regs.registers

def Stop.setResolve (stop : Stop) (resolve : ThreadName → ResolveEnv) : Stop :=
  { stop with event := stop.event.setResolve resolve }

theorem Stop.isRecorded_eq_false_iff {stop : Stop} :
    stop.isRecorded = false
      ↔
    (stop.tidAlive = true → stop.event.tidAlive = false ∨ ∀ r ∈ stop.event.regs, r.registers = false) := by
  unfold isRecorded
  cases stop.tidAlive with
  | false => simp
  | true =>
    cases stop.event.tidAlive with
    | false => simp
    | true =>
      cases stop.event.regs with
      | none => simp
      | some regs => simp

namespace MainState

variable {env : TurnEnv} {m : MainState}

theorem turn_of_not_syscallStop (h : env.isSyscallStop = false) : m.turn env = .returned m := by
  unfold turn
  split_ifs with htid halive hexit hstop
  . rfl
  . rfl
  . rfl
  . exfalso
    rw [Bool.not_eq_true] at hexit
    simp only [TurnEnv.isSyscallStop, hexit, hstop, Bool.not_false, Bool.and_true, decide_true,
      decide_eq_false_iff_not] at h
    exact htid (Int.not_lt.mp h)
  . rfl
  . rfl

theorem turn_of_dead (h : env.tidAlive = false) : m.turn env = .returned m := by
  unfold turn
  simp [h]

theorem turn_of_syscallStop (h : env.isSyscallStop = true) (halive : env.tidAlive = true)
    (hresolving : m.isResolving = false) :
    m.turn env
      =
    match m.world.handleEvent env.event env.tid with
    | .returned w => .returned { m with world := w }
    | .thrown e w => .thrown e { m with world := w }
    | .undefined => .undefined := by
  rw [TurnEnv.isSyscallStop, Bool.and_eq_true, Bool.and_eq_true, Bool.not_eq_true'] at h
  obtain ⟨⟨htid, hexit⟩, hstop⟩ := h
  have htid' : ¬env.tid ≤ 0 := Int.not_le.mpr (of_decide_eq_true htid)
  rw [turn, if_neg htid', halive, hexit, hresolving, if_pos (of_decide_eq_true hstop)]
  rfl

end MainState

namespace Traced

variable {m : Traced} {stop : Stop}

def ReturnedNotWaiting (m : Traced) : Prop :=
  ∀ main, m.main = .returned main → ∀ tid, m.returned tid = true → NotWaiting main.world.toTracker tid

/--
If the last wait of the thread has returned with this stop or before it, then the stop is not recorded, and
the thread is not registered from before.
-/
def KeepsReturned (m : Traced) (stop : Stop) : Prop :=
  ∀ main, m.main = .returned main → stop.isSyscallStop = true → m.returnedAfter stop = true →
    stop.isRecorded = false ∧ NotWaiting main.world.toTracker stop.tid

theorem step_main (m : Traced) (stop : Stop) :
    (m.step stop).main = MainState.step m.main stop.toTurnEnv := by
  unfold step
  simp only
  split_ifs <;> rfl

theorem step_returned (m : Traced) (stop : Stop) :
    (m.step stop).returned
      =
    if stop.isSyscallStop then Function.update m.returned stop.tid (m.returnedAfter stop)
    else m.returned := by
  unfold step
  simp only
  split_ifs <;> rfl

theorem main_of_step {main' : MainState} (h : (m.step stop).main = .returned main') :
    ∃ main, m.main = .returned main ∧ main.turn stop.toTurnEnv = .returned main' := by
  rw [step_main] at h
  unfold MainState.step at h
  split at h
  . next main heq => exact ⟨main, heq, h⟩
  . simp at h
  . simp at h

theorem returnedNotWaiting_step (h : m.ReturnedNotWaiting) (hkeeps : m.KeepsReturned stop) :
    (m.step stop).ReturnedNotWaiting := by
  intro main' hmain' tid hret
  obtain ⟨main, hmain, hturn⟩ := main_of_step hmain'
  rw [step_returned] at hret
  split at hret
  . next hstop =>
    have hkept : NotWaiting main.world.toTracker tid ∧ (stop.tidAlive = true → tid ≠ stop.tid ∨
        stop.event.tidAlive = false ∨ ∀ r ∈ stop.event.regs, r.registers = false) := by
      by_cases htid : tid = stop.tid
      . subst htid
        rw [Function.update_self] at hret
        obtain ⟨hrecorded, hnot⟩ := hkeeps main hmain hstop hret
        exact ⟨hnot, fun halive => .inr (Stop.isRecorded_eq_false_iff.mp hrecorded halive)⟩
      . rw [Function.update_of_ne htid] at hret
        exact ⟨h main hmain tid hret, fun _ => .inl htid⟩
    have hforall := MainState.forall_turn (I := fun w => NotWaiting w.toTracker tid) hkept.1
      (fun halive => World.notWaiting_handleEvent hkept.1 (hkept.2 halive))
    rw [hturn] at hforall
    exact hforall
  . next hstop =>
    rw [MainState.turn_of_not_syscallStop (Bool.not_eq_true _ ▸ hstop), Outcome.returned.injEq] at hturn
    rw [← hturn]
    exact h main hmain tid hret

theorem returned_of_returnedAfter (hallows : m.Allows stop) (hstop : stop.isSyscallStop = true)
    (hafter : m.returnedAfter stop = true) (hwait : stop.threadRegs.isWait = false) :
    m.returned stop.tid = true := by
  unfold returnedAfter at hafter
  split at hafter
  . simpa [hwait] using hafter
  . next regs hin =>
    rw [← hallows.exit_regs hstop regs hin, hwait] at hafter
    exact hafter

theorem keepsReturned_of_forall (hallows : m.Allows stop)
    (hresolving : ∀ main, m.main = .returned main → main.isResolving = false) (h : m.ReturnedNotWaiting)
    (hnext : ∀ resolve, (m.step (stop.setResolve resolve)).ReturnedNotWaiting) : m.KeepsReturned stop := by
  intro main hmain hstop hafter
  have hstop' : (stop.setResolve ScanState.deadEnv).isSyscallStop = true := hstop
  have hreturned : ∀ main', main.turn (stop.setResolve ScanState.deadEnv).toTurnEnv = .returned main' →
      NotWaiting main'.world.toTracker stop.tid := by
    intro main' hturn
    apply hnext ScanState.deadEnv main'
    . rw [step_main, hmain]
      exact hturn
    . rw [step_returned, if_pos hstop']
      exact (Function.update_self stop.tid _ _).trans hafter
  rw [Stop.isRecorded_eq_false_iff]
  cases halive : stop.tidAlive with
  | false =>
    have halive' : (stop.setResolve ScanState.deadEnv).tidAlive = false := halive
    exact ⟨by simp, hreturned main (MainState.turn_of_dead halive')⟩
  | true =>
    have halive' : (stop.setResolve ScanState.deadEnv).tidAlive = true := halive
    have hhandler : ∀ w', main.world.handleEvent (stop.event.setResolve ScanState.deadEnv) stop.tid
        = .returned w' → NotWaiting w'.toTracker stop.tid := by
      intro w' hw'
      have hturn := MainState.turn_of_syscallStop hstop' halive' (hresolving main hmain)
      apply hreturned { main with world := w' }
      rw [hturn]
      simp only [Stop.setResolve, hw']
    obtain ⟨hrecorded, hbefore⟩ := World.notWaiting_of_handleEvent hhandler
    refine ⟨fun _ => hrecorded, ?_⟩
    rcases hbefore with hbefore | ⟨r, hr, hwait⟩
    . exact hbefore
    . apply h main hmain
      apply returned_of_returnedAfter hallows hstop hafter
      rcases hallows.read_regs hstop with hnone | hsome
      . rw [hnone] at hr
        simp at hr
      . rw [Option.mem_unique hr hsome] at hwait
        exact hwait

theorem foldl_step_main (m : Traced) (stops : List Stop) :
    (stops.foldl step m).main = (stops.map Stop.toTurnEnv).foldl MainState.step m.main := by
  induction stops generalizing m with
  | nil => rfl
  | cons stop stops ih =>
    rw [List.foldl_cons, ih, step_main]
    rfl

theorem isResolving_run (memory : Memory) (stops : List Stop) (main : MainState)
    (h : (stops.foldl step (init memory)).main = .returned main) : main.isResolving = false := by
  rw [foldl_step_main] at h
  exact MainState.not_isResolving_run h

/--
In a run whose stops meet the condition no thread is taken for waiting after its wait has returned. And where
this is so up to now, the next stop keeps it, however the resolvers end, exactly if it meets the condition.
-/
theorem returnedNotWaiting_run_iff (memory : Memory) (stops : List Stop) :
    (Run.Steps step KeepsReturned (init memory) stops →
      Run.States step ReturnedNotWaiting (init memory) stops) ∧
    (Run.States step ReturnedNotWaiting (init memory) stops →
      ∀ stop, (stops.foldl step (init memory)).Allows stop →
        ((∀ resolve, ((stops.foldl step (init memory)).step (stop.setResolve resolve)).ReturnedNotWaiting)
          ↔
          (stops.foldl step (init memory)).KeepsReturned stop)) := by
  constructor
  . intro hsteps
    refine Run.states_of_steps (fun _ _ h hkeeps => returnedNotWaiting_step h hkeeps) ?_ hsteps
    intro main _ tid hret
    simp [init] at hret
  . intro hstates stop hallows
    constructor
    . exact keepsReturned_of_forall hallows (isResolving_run memory stops) hstates.last
    . intro hkeeps resolve
      exact returnedNotWaiting_step hstates.last hkeeps

section wait

def waitRegs : Regs := ⟨sysFutex, 0x10000, 0⟩

def waitStop : Stop where
  toTurnEnv := futexStop 1 0x10000 0
  threadRegs := waitRegs

theorem exists_returned_waiting :
    ¬∀ memory stops, Run.Steps step Allows (init memory) stops →
      Run.States step ReturnedNotWaiting (init memory) stops := by
  intro h
  have hallows : Run.Steps step Allows (init fun _ => 1) [waitStop, waitStop] := by
    refine ⟨⟨?_, fun _ => .inr rfl⟩, ⟨?_, fun _ => .inr rfl⟩, trivial⟩
    . intro _ regs hregs
      simp [init] at hregs
    . intro _ regs hregs
      exact Option.some.inj hregs
  have hnot := (h _ _ hallows).last _ rfl 1 rfl ['t', 'h', 'r', 'e', 'a', 'd', '-', '1']
  apply hnot.1 0x10000
  decide

end wait

end Traced

end DeadlockInterceptor
