import DeadlockInterceptor.Lemmas.Identifiers

/-!
This module contains when the order of two neighboring futex calls of different threads on different
addresses does not matter. The one effect of a call that goes beyond its thread and its address is that a
wake drops the edges into its thread, so a wait for a lock of that thread must not come next to it.
-/

namespace DeadlockInterceptor

namespace Tracker

structure SameMaps (s s' : Tracker) : Prop where
  owner : ∀ a, s'.owner a = s.owner a
  mem_threadLocks : ∀ t, t ∈ s'.threadLocks ↔ t ∈ s.threadLocks
  held : ∀ t a, s'.Held t a ↔ s.Held t a
  waitsFor : s.waitsFor.Same s'.waitsFor
  waiters : ∀ a, s'.waiters a = s.waiters a

def onCall (call : FutexCall) (now : Time) (t : ThreadName) (a : Addr) (s : Tracker) : Tracker :=
  match call with
  | .wait => if junkAddr a then s else s.onWait now t a
  | .wake => if junkAddr a then s.onWake a else (s.onWake a).onLock now t a

section lookups

variable (s : Tracker) (call : FutexCall) (now : Time) (t : ThreadName) (a : Addr)

def Acquires (call : FutexCall) (a : Addr) : Prop := call = .wake ∧ junkAddr a = false

def Registers (call : FutexCall) (a : Addr) : Prop := call = .wait ∧ junkAddr a = false

instance : Decidable (Acquires call a) := inferInstanceAs (Decidable (_ ∧ _))

instance : Decidable (Registers call a) := inferInstanceAs (Decidable (_ ∧ _))

theorem onCall_owner (b : Addr) :
    (s.onCall call now t a).owner b = if Acquires call a ∧ b = a then some t else s.owner b := by
  cases call <;> cases ha : junkAddr a <;> simp [onCall, Acquires, ha]

theorem onCall_held (x : ThreadName) (b : Addr) :
    (s.onCall call now t a).Held x b ↔ (Acquires call a ∧ x = t ∧ b = a) ∨ s.Held x b := by
  cases call <;> cases ha : junkAddr a <;> simp [onCall, Acquires, ha]

theorem onCall_waits (x u : ThreadName) :
    (s.onCall call now t a).Waits x u
      ↔
    (¬(Acquires call a ∧ u = t) ∧ s.Waits x u) ∨
      (Registers call a ∧ x = t ∧ s.owner a = some u ∧ u ≠ t) := by
  cases call <;> cases ha : junkAddr a <;> simp [onCall, Acquires, Registers, ha]

theorem onCall_waiters (b : Addr) :
    (s.onCall call now t a).waiters b
      =
    if Registers call a ∧ b = a then
      s.waiters a ++ [t]
    else
      (if call = .wake ∧ b = a then [] else s.waiters b).filter fun x => ¬(Acquires call a ∧ x = t) := by
  cases call <;> cases ha : junkAddr a <;> simp [onCall, Acquires, Registers, ha]

theorem onCall_mem_threadLocks (x : ThreadName) :
    x ∈ (s.onCall call now t a).threadLocks ↔ (Acquires call a ∧ x = t) ∨ x ∈ s.threadLocks := by
  cases call <;> cases ha : junkAddr a <;> simp [onCall, Acquires, ha, onWait, onLock]

theorem addWaitEdge_mem_waitsFor (x : ThreadName) :
    x ∈ (s.addWaitEdge t a).waitsFor
      ↔
    (x = t ∧ ∃ u, s.owner a = some u ∧ u ≠ t) ∨ x ∈ s.waitsFor := by
  unfold addWaitEdge
  split
  . next o ho =>
    split
    . next hne => simp [owner, ho, hne]
    . next hne => simp [owner, ho, not_not.mp hne]
  . next ho => simp [owner, ho]

theorem onWait_mem_waitsFor (x : ThreadName) :
    x ∈ (s.onWait now t a).waitsFor
      ↔
    (x = t ∧ ∃ u, s.owner a = some u ∧ u ≠ t) ∨ x ∈ s.waitsFor := by
  simp only [onWait, refreshLockStats_waitsFor]
  exact addWaitEdge_mem_waitsFor _ t a x

theorem onCall_mem_waitsFor (x : ThreadName) :
    x ∈ (s.onCall call now t a).waitsFor
      ↔
    (Registers call a ∧ x = t ∧ ∃ u, s.owner a = some u ∧ u ≠ t) ∨ x ∈ s.waitsFor := by
  cases call with
  | wait => cases ha : junkAddr a <;> simp [onCall, Registers, ha, onWait_mem_waitsFor]
  | wake => cases ha : junkAddr a <;> simp [onCall, Registers, ha, onLock]

end lookups

section commute

variable {s : Tracker} {c d : FutexCall} {now now' : Time} {t u : ThreadName} {a b : Addr}

/--
The wait of a thread for a lock and a wake by the owner of this lock: the edge of the wait only stays if
the wake comes first.
-/
def WaitsForWaker (s : Tracker) (c : FutexCall) (a : Addr) (d : FutexCall) (u : ThreadName) (b : Addr) :
    Prop :=
  Registers c a ∧ Acquires d b ∧ s.owner a = some u

theorem not_waitsForWaker_of_waits (htu : t ≠ u) (hab : a ≠ b)
    (h : ∀ x y, ((s.onCall d now' u b).onCall c now t a).Waits x y →
      ((s.onCall c now t a).onCall d now' u b).Waits x y) : ¬s.WaitsForWaker c a d u b := by
  rintro ⟨hreg, hacq, howner⟩
  have hedge := h t u (by
    rw [onCall_waits, onCall_owner, if_neg (by simp [hab])]
    exact .inr ⟨hreg, rfl, howner, htu.symm⟩)
  rw [onCall_waits] at hedge
  rcases hedge with ⟨hkeep, -⟩ | ⟨hwait, -⟩
  . exact hkeep ⟨hacq, rfl⟩
  . exact absurd (hwait.1.symm.trans hacq.1) (by simp)

theorem onCall_comm_waits (hab : a ≠ b) (h1 : ¬s.WaitsForWaker c a d u b)
    (h2 : ¬s.WaitsForWaker d b c t a) (x y : ThreadName) :
    ((s.onCall d now' u b).onCall c now t a).Waits x y
      ↔
    ((s.onCall c now t a).onCall d now' u b).Waits x y := by
  simp only [onCall_waits, onCall_owner, hab, hab.symm, and_false, if_false]
  unfold WaitsForWaker at h1 h2
  grind

theorem onCall_comm_waiters_left (htu : t ≠ u) (hab : a ≠ b) :
    ((s.onCall d now' u b).onCall c now t a).waiters a
      =
    ((s.onCall c now t a).onCall d now' u b).waiters a := by
  simp only [onCall_waiters, hab, and_false, if_false, and_true]
  by_cases hc : Registers c a
  . -- the other thread is filtered out before or after the waiting thread is added
    simp [hc, htu, List.filter_append]
  . simp only [hc, if_false]
    split
    . simp
    . simp only [List.filter_filter, Bool.and_comm]

theorem onCall_comm_waiters (htu : t ≠ u) (hab : a ≠ b) (z : Addr) :
    ((s.onCall d now' u b).onCall c now t a).waiters z
      =
    ((s.onCall c now t a).onCall d now' u b).waiters z := by
  by_cases hza : z = a
  . rw [hza, onCall_comm_waiters_left htu hab]
  . by_cases hzb : z = b
    . rw [hzb, onCall_comm_waiters_left htu.symm hab.symm]
    . simp only [onCall_waiters, hza, hzb, and_false, if_false, List.filter_filter, Bool.and_comm]

theorem onCall_comm_iff (htu : t ≠ u) (hab : a ≠ b) :
    SameMaps ((s.onCall c now t a).onCall d now' u b) ((s.onCall d now' u b).onCall c now t a)
      ↔
    ¬s.WaitsForWaker c a d u b ∧ ¬s.WaitsForWaker d b c t a := by
  constructor
  . intro h
    constructor
    . exact not_waitsForWaker_of_waits htu hab fun x y => (h.waitsFor.edge x y).mp
    . exact not_waitsForWaker_of_waits htu.symm hab.symm fun x y => (h.waitsFor.edge x y).mpr
  . rintro ⟨h1, h2⟩
    constructor
    . intro z
      simp only [onCall_owner]
      grind
    . intro x
      simp only [onCall_mem_threadLocks]
      exact or_left_comm
    . intro x z
      simp only [onCall_held]
      exact or_left_comm
    . constructor
      . intro x
        simp only [onCall_mem_waitsFor, onCall_owner, hab, hab.symm, and_false, if_false]
        exact or_left_comm
      . exact onCall_comm_waits hab h1 h2
    . exact onCall_comm_waiters htu hab

end commute

end Tracker

namespace GlobalState

variable {s : GlobalState}

theorem step_toTracker (s : GlobalState) (e : Event) :
    (s.step e).toTracker = s.toTracker.onCall e.call e.env.now (s.nameOf e) e.addr := by
  unfold Tracker.onCall
  split
  . next h =>
    cases ha : junkAddr e.addr with
    | false => exact step_wait_toTracker h ha
    | true =>
      rw [step_junk_toTracker ha, h]
      rfl
  . next h =>
    cases ha : junkAddr e.addr with
    | false => exact step_wake_toTracker h ha
    | true =>
      rw [step_junk_toTracker ha, h]
      rfl

theorem step_targetPid (s : GlobalState) (e : Event) : (s.step e).targetPid = s.targetPid := by
  cases h : e.call with
  | wait =>
    rw [step_of_wait s h, onWait]
    split <;> rfl
  | wake =>
    rw [step_of_wake s h, onLock]
    split <;> rfl

theorem threadIdentifier_cache_of_ne {proc : ProcFs} {tid tid' : Pid} (h : tid ≠ tid') :
    (s.threadIdentifier proc tid').2.threadInfoCache.lookup tid = s.threadInfoCache.lookup tid := by
  simp only [threadIdentifier, getThreadIdentifier, getThreadName]
  split
  . rfl
  . exact AList.lookup_insert_ne h

theorem step_cache_of_ne {e : Event} {tid : Pid} (h : tid ≠ e.tid) :
    (s.step e).threadInfoCache.lookup tid = s.threadInfoCache.lookup tid := by
  have hwake : (s.onWake e.env e.tid e.addr).threadInfoCache.lookup tid = s.threadInfoCache.lookup tid :=
    threadIdentifier_cache_of_ne h
  cases hcall : e.call with
  | wait =>
    rw [step_of_wait s hcall, onWait]
    split
    . rfl
    . exact threadIdentifier_cache_of_ne h
  | wake =>
    rw [step_of_wake s hcall, onLock]
    split
    . exact hwake
    . exact (threadIdentifier_cache_of_ne h).trans hwake

theorem nameOf_step {e f : Event} (h : e.tid ≠ f.tid) : (s.step f).nameOf e = s.nameOf e := by
  simp only [nameOf, threadIdentifier, getThreadIdentifier, step_targetPid]
  rw [getThreadName_fst_congr (step_cache_of_ne h)]

/--
Two neighboring futex calls of different threads on different addresses can be exchanged exactly if neither
of them is a wait for a lock whose owner makes a wake with the other one.
-/
theorem step_comm_iff (s : GlobalState) (e f : Event) (htid : e.tid ≠ f.tid) (haddr : e.addr ≠ f.addr) :
    Tracker.SameMaps ((s.step e).step f).toTracker ((s.step f).step e).toTracker
      ↔
    ¬s.WaitsForWaker e.call e.addr f.call (s.nameOf f) f.addr ∧
      ¬s.WaitsForWaker f.call f.addr e.call (s.nameOf e) e.addr := by
  have hname : s.nameOf e ≠ s.nameOf f := fun h => htid (identifierOf_injective h)
  rw [step_toTracker (s.step e), step_toTracker (s.step f), step_toTracker s, step_toTracker s,
    nameOf_step htid, nameOf_step htid.symm]
  exact Tracker.onCall_comm_iff hname haddr

theorem step_comm_iff_apart :
    let s := run [⟨.wake, 1, 0x10000, .bare⟩]
    Tracker.SameMaps ((s.step ⟨.wait, 2, 0x10000, .bare⟩).step ⟨.wake, 3, 0x10010, .bare⟩).toTracker
      ((s.step ⟨.wake, 3, 0x10010, .bare⟩).step ⟨.wait, 2, 0x10000, .bare⟩).toTracker :=
  (step_comm_iff (run [⟨.wake, 1, 0x10000, .bare⟩]) ⟨.wait, 2, 0x10000, .bare⟩ ⟨.wake, 3, 0x10010, .bare⟩
    (by decide) (by decide)).mpr ⟨fun h => absurd h.2.2 (by decide), fun h => absurd h.1.1 (by decide)⟩

theorem exists_order_matters :
    ¬∀ (s : GlobalState) (e f : Event), e.tid ≠ f.tid → e.addr ≠ f.addr →
      Tracker.SameMaps ((s.step e).step f).toTracker ((s.step f).step e).toTracker := by
  intro h
  have hsame := h (run [⟨.wake, 2, 0x10000, .bare⟩]) ⟨.wait, 1, 0x10000, .bare⟩
    ⟨.wake, 2, 0x10010, .bare⟩ (by decide) (by decide)
  have hedge := (hsame.waitsFor.edge (identifierOf ['t', 'h', 'r', 'e', 'a', 'd', '-', '1'] 1)
    (identifierOf ['t', 'h', 'r', 'e', 'a', 'd', '-', '2'] 2)).mp (by decide)
  exact absurd hedge (by decide)

end GlobalState

end DeadlockInterceptor
