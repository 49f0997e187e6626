import DeadlockInterceptor.Lemmas.Records
import DeadlockInterceptor.Lemmas.UserSpace

/-!
This module contains where a run of the monitor may have changed the memory of the target: next to the futexes that
the target itself has woken. A lock is written to because a thread has been taken for its holder, and threads are
taken for holders of what they wake.
-/

namespace DeadlockInterceptor

/--
The bytes of a memory are those of another one, or they are zero and within reach of one of the locks. The reach is
that of a machine word written to the last byte of a futex.
-/
def Memory.ZeroedNear (locks : Addr → Prop) (before after : Memory) : Prop :=
  ∀ a, after a = before a ∨ (after a = 0 ∧ ∃ lockAddr, locks lockAddr ∧ (a - lockAddr).toNat < 11)

namespace Memory.ZeroedNear

variable {locks : Addr → Prop} {before memory after : Memory}

theorem refl : ZeroedNear locks memory memory := fun _ => .inl rfl

theorem trans (h : ZeroedNear locks before memory) (h' : ZeroedNear locks memory after) :
    ZeroedNear locks before after := by
  intro a
  rcases h' a with heq | hzero
  . rw [heq]
    exact h a
  . exact .inr hzero

theorem mono {locks' : Addr → Prop} (h : ZeroedNear locks before after) (hlocks : ∀ a, locks a → locks' a) :
    ZeroedNear locks' before after := by
  intro a
  rcases h a with heq | ⟨hzero, lockAddr, hlock, hnear⟩
  . exact .inl heq
  . exact .inr ⟨hzero, lockAddr, hlocks lockAddr hlock, hnear⟩

theorem zero {lockAddr : Addr} (hlock : locks lockAddr) {n : Nat} (hn : n ≤ 4) :
    ZeroedNear locks memory (memory.zero lockAddr n) := by
  intro a
  unfold Memory.zero
  split
  . next h => exact .inr ⟨rfl, lockAddr, hlock, by omega⟩
  . exact .inl rfl

end Memory.ZeroedNear

theorem ShadowRun.zeroedNear_unlocker (run : ShadowRun) (locks : List Addr) (memory : Memory) :
    memory.ZeroedNear (· ∈ locks) (run.unlocker locks memory).memory := by
  have haccounted := run.accounted locks memory
  have hfor : ∀ e ∈ (run.unlocker locks memory).log, ∃ lockAddr ∈ locks, e.1.IsFor lockAddr :=
    FutexUnlocker.preserves_unlockMultiple
      (fun _ hlockAddr => FutexUnlocker.unlockInvariant_isFor_mem run.mortalKernel hlockAddr) 7 { memory := memory }
      fun _ he => absurd he List.not_mem_nil
  intro a
  by_cases hover : Overwritten (run.unlocker locks memory).log a
  . refine .inr ⟨haccounted.zero a hover, ?_⟩
    obtain ⟨⟨c, reply⟩, he, addr, n, hwritten, ha⟩ := hover
    obtain ⟨lockAddr, hlock, hc⟩ := hfor _ he
    refine ⟨lockAddr, hlock, ?_⟩
    rcases FutexUnlocker.written_cases hc hwritten with ⟨rfl, hn⟩ | ⟨i, hi, -, rfl, rfl, -, -⟩
    . omega
    . exact FutexUnlocker.toNat_sub_lt hi ha
  . exact .inl (haccounted.frame a hover)

namespace World

variable {w : World}

theorem zeroedNear_resolveDeadlockStrategy1 (env : Strategy1Env) (deadlock : DeadlockInfo) (w : World) :
    w.memory.ZeroedNear (· ∈ deadlock.involvedLocks) (w.resolveDeadlockStrategy1 env deadlock).2.memory := by
  unfold resolveDeadlockStrategy1
  split
  . exact .refl
  . exact .refl
  . split
    . exact .refl
    . split
      . exact .refl
      . next run _ =>
        simp only
        split
        . exact run.zeroedNear_unlocker deadlock.involvedLocks w.memory
        . exact run.zeroedNear_unlocker deadlock.involvedLocks w.memory

theorem emergencyDeadlockBreak_memory (env : EmergencyEnv) (deadlock : DeadlockInfo) (w : World) :
    (w.emergencyDeadlockBreak env deadlock).2.memory = w.memory := by
  unfold emergencyDeadlockBreak
  split
  . rfl
  . rfl
  . rfl

theorem zeroedNear_resolveThreadDeadlock (env : ResolveEnv) (cycle : List ThreadName) (w : World) :
    w.memory.ZeroedNear (· ∈ findLocksInDeadlock w.toTracker cycle) (w.resolveThreadDeadlock env cycle).2.memory := by
  unfold resolveThreadDeadlock
  simp only
  generalize hdeadlock : DeadlockInfo.mk cycle _ _ false = deadlock
  have hlocks : deadlock.involvedLocks = findLocksInDeadlock w.toTracker cycle := by
    rw [← hdeadlock]
  have h₁ := zeroedNear_resolveDeadlockStrategy1 env.strategy1 deadlock
    { w with deadlockCounter := w.deadlockCounter + 1 }
  rw [hlocks] at h₁
  split
  . next heq =>
    rw [heq] at h₁
    exact h₁
  . next heq =>
    rw [heq] at h₁
    exact h₁
  . next w₁ heq =>
    rw [heq] at h₁
    have h₂ := emergencyDeadlockBreak_memory env.emergency deadlock w₁
    split
    . next heq₂ =>
      rw [heq₂] at h₂
      rw [h₂]
      exact h₁
    . next heq₂ =>
      rw [heq₂] at h₂
      rw [resolveThreadDeadlock.record, h₂]
      exact h₁

theorem zeroedNear_resolveGroupDeadlock (ho : HashOrders) (env : GroupEnv) (groupDeadlock : GroupDeadlockInfo)
    (w : World) :
    w.memory.ZeroedNear (· ∈ groupDeadlock.allLocks ho) (w.resolveGroupDeadlock ho env groupDeadlock).2.memory := by
  rw [resolveGroupDeadlock_memory]
  refine Run.foldl_invariant_mem (I := w.memory.ZeroedNear (· ∈ groupDeadlock.allLocks ho)) ?_ .refl
  rintro memory ⟨lockAddr, reply⟩ hmem h
  have hlock : lockAddr ∈ groupDeadlock.allLocks ho := by
    unfold GroupDeadlockInfo.pwrites at hmem
    split at hmem
    . obtain ⟨⟨a, k⟩, hin, heq⟩ := List.mem_map.mp hmem
      obtain ⟨rfl, -⟩ := Prod.mk.inj heq
      exact (List.mem_zipIdx' hin).2 ▸ List.getElem_mem _
    . exact absurd hmem List.not_mem_nil
  cases reply with
  | ok n => exact h.trans (.zero hlock (Nat.min_le_right n 4))
  | error _ => exact h

end World

inductive Tracker.Locked (s : Tracker) (a : Addr) : Prop where
  | owner (t : ThreadName) (h : s.owner a = some t)
  | held (t : ThreadName) (h : s.Held t a)

def Regs.Wakes (regs : Regs) (a : Addr) : Prop :=
  regs.isFutexOp futexWake = true ∧ regs.rdi = a ∧ junkAddr a = false

theorem TurnEnv.wakes_iff {env : TurnEnv} {a : Addr} :
    env.Wakes a ↔ env.isHandled = true ∧ ∃ regs ∈ env.event.regs, regs.Wakes a := Iff.rfl

section locked

variable {s : Tracker} {a b : Addr}

namespace Tracker

theorem Locked.of_mem (h : a ∈ s.lockOwners) : s.Locked a := by
  obtain ⟨t, ht⟩ := AList.lookup_of_mem h
  exact .owner t ht

theorem mem_lockOwners_of_owner {t : ThreadName} (h : s.owner a = some t) : a ∈ s.lockOwners :=
  AList.lookup_isSome.mp (Option.isSome_of_eq_some h)

theorem Same.locked {s' : Tracker} (hs : s.Same s') (h : s'.Locked a) : s.Locked a := by
  cases h with
  | owner t h => exact .owner t ((hs.owner a).symm.trans h)
  | held t h => exact .held t ((hs.held t a).mp h)

theorem locked_onLock {now : Time} {t : ThreadName} (h : (s.onLock now t a).Locked b) : s.Locked b ∨ b = a := by
  cases h with
  | owner x h =>
    rw [onLock_owner] at h
    split at h
    . next hb => exact .inr hb
    . exact .inl (.owner x h)
  | held x h =>
    rcases (onLock_held _ _ _ _ _ _).mp h with ⟨-, hb⟩ | h
    . exact .inr hb
    . exact .inl (.held x h)

theorem locked_onWait {now : Time} {t : ThreadName} (h : (s.onWait now t a).Locked b) : s.Locked b := by
  cases h with
  | owner x h => exact .owner x (by rwa [onWait_owner] at h)
  | held x h => exact .held x ((onWait_held _ _ _ _ _ _).mp h)

theorem locked_onWake (h : (s.onWake a).Locked b) : s.Locked b := by
  cases h with
  | owner x h => exact .owner x (by rwa [onWake_owner] at h)
  | held x h => exact .held x ((onWake_held _ _ _ _).mp h)

theorem locked_cleanVictim {victimName : ThreadName} {locks : List Addr}
    (h : (s.cleanVictim victimName locks).Locked a) : s.Locked a := by
  cases h with
  | owner x h =>
    exact .of_mem (AList.mem_of_mem_foldl_erase (p := fun o => o = some victimName) (mem_lockOwners_of_owner h))
  | held x h =>
    rw [Held, cleanVictim, AList.getD_erase] at h
    split at h
    . exact absurd h (USet.notMem_empty a)
    . exact .held x h

end Tracker

theorem locked_handleSyscall {env : Env} {tid : Pid} {regs : Option Regs} {s : GlobalState}
    (h : (handleSyscall env tid regs s).Locked a) : s.Locked a ∨ ∃ r ∈ regs, r.Wakes a := by
  have hwait : ∀ addr, (s.onWait env tid addr).Locked a → s.Locked a := by
    intro addr h
    unfold GlobalState.onWait at h
    split at h
    . exact h
    . exact Tracker.locked_onWait h
  unfold handleSyscall at h
  cases regs with
  | none => exact .inl h
  | some regs =>
    simp only at h
    split_ifs at h with hsys _ hop
    . exact .inl (hwait _ h)
    . unfold GlobalState.onLock at h
      split at h
      . exact .inl (Tracker.locked_onWake h)
      . next hjunk =>
        rcases Tracker.locked_onLock h with h | rfl
        . exact .inl (Tracker.locked_onWake h)
        . refine .inr ⟨regs, rfl, ?_, rfl, Bool.not_eq_true _ ▸ hjunk⟩
          simp [Regs.isFutexOp, hsys, hop]
    . exact .inl (hwait _ h)
    . exact .inl h
    . exact .inl h

theorem locked_of_mem_findLocksInDeadlock {cycle : List ThreadName} (h : a ∈ findLocksInDeadlock s cycle) :
    s.Locked a := by
  obtain ⟨x, -, -, howner, -⟩ := (mem_findLocksInDeadlock s cycle a).mp h
  exact .owner x howner

theorem locked_of_mem_allLocks {ho ho' : HashOrders} {groupDeadlock : GroupDeadlockInfo}
    (hgroup : detectGroupDeadlock ho s = .ok groupDeadlock) (h : a ∈ groupDeadlock.allLocks ho') : s.Locked a := by
  obtain ⟨res, hres, ha⟩ := GroupDeadlockInfo.mem_allLocks.mp h
  rcases eq_of_detectGroupDeadlock hgroup with rfl | ⟨-, locks, l, -, hl, rfl⟩
  . exact absurd hres List.not_mem_nil
  . obtain ⟨group, hmem, hheld, -⟩ := detectGroupDeadlock.exists_group_of_mem_resolutions hl hres
    rw [hheld] at ha
    obtain ⟨t, -, ht⟩ := (mem_locksHeld_analyze hmem).mp ha
    exact .held t ht

end locked

namespace World

variable {w : World} {a : Addr}

theorem locked_resolveDeadlockStrategy1 {env : Strategy1Env} {deadlock : DeadlockInfo}
    (h : (w.resolveDeadlockStrategy1 env deadlock).2.Locked a) : w.Locked a :=
  resolveDeadlockStrategy1_rule (I := fun s => s.Locked a → w.Locked a) env deadlock w (fun h => h)
    (fun _ => Tracker.locked_cleanVictim) h

theorem locked_emergencyDeadlockBreak {env : EmergencyEnv} {deadlock : DeadlockInfo}
    (h : (w.emergencyDeadlockBreak env deadlock).2.Locked a) : w.Locked a := by
  unfold emergencyDeadlockBreak at h
  split at h
  . exact h
  . exact h
  . cases h with
    | owner t h => exact .of_mem (AList.mem_of_mem_eraseVal (Tracker.mem_lockOwners_of_owner h))
    | held t h =>
      rw [Tracker.Held, AList.getD_erase] at h
      split at h
      . exact absurd h (USet.notMem_empty a)
      . exact .held t h

theorem locked_resolveThreadDeadlock {env : ResolveEnv} {cycle : List ThreadName}
    (h : (w.resolveThreadDeadlock env cycle).2.Locked a) : w.Locked a := by
  revert h
  apply resolveThreadDeadlock_rule (I := fun w' => w'.Locked a → w.Locked a)
  . exact fun deadlock w' hw' h => hw' (locked_resolveDeadlockStrategy1 h)
  . exact fun deadlock w' hw' h => hw' (locked_emergencyDeadlockBreak h)
  . exact fun deadlock w' _ hw' h => hw' h
  . exact fun h => h

structure Touches (locks : Addr → Prop) (memory : Memory) (w : World) : Prop where
  locked : ∀ a, w.Locked a → locks a
  bytes : memory.ZeroedNear locks w.memory

variable {locks : Addr → Prop} {memory : Memory}

theorem Touches.mono {locks' : Addr → Prop} (h : w.Touches locks memory) (hlocks : ∀ a, locks a → locks' a) :
    w.Touches locks' memory where
  locked a ha := hlocks a (h.locked a ha)
  bytes := h.bytes.mono hlocks

theorem Touches.resolveThreadDeadlock (h : w.Touches locks memory) (env : ResolveEnv) (cycle : List ThreadName) :
    (w.resolveThreadDeadlock env cycle).2.Touches locks memory where
  locked a ha := h.locked a (locked_resolveThreadDeadlock ha)
  bytes := by
    apply h.bytes.trans
    apply (zeroedNear_resolveThreadDeadlock env cycle w).mono
    exact fun a ha => h.locked a (locked_of_mem_findLocksInDeadlock ha)

theorem Touches.resolveGroupDeadlock (h : w.Touches locks memory) {ho : HashOrders} (env : GroupEnv)
    {groupDeadlock : GroupDeadlockInfo} (hgroup : detectGroupDeadlock ho w.toTracker = .ok groupDeadlock) :
    (World.resolveGroupDeadlock ho env groupDeadlock
      { w with deadlockCounter := w.deadlockCounter + 1 }).2.Touches locks memory where
  locked := h.locked
  bytes := by
    apply h.bytes.trans
    apply (zeroedNear_resolveGroupDeadlock ho env groupDeadlock w).mono
    exact fun a ha => h.locked a (locked_of_mem_allLocks hgroup ha)

end World

namespace MainState

def Woken (envs : List TurnEnv) (a : Addr) : Prop := ∃ env ∈ envs, env.Wakes a

theorem touches_turn {memory : Memory} {envs : List TurnEnv} {m : MainState} (hresolving : m.isResolving = false)
    (h : m.world.Touches (Woken envs) memory) (env : TurnEnv) :
    (m.turn env).Forall fun m' => m'.world.Touches (Woken (envs ++ [env])) memory := by
  have hmono : ∀ a, Woken envs a → Woken (envs ++ [env]) a := by
    rintro a ⟨env', henv', hwakes⟩
    exact ⟨env', List.mem_append_left _ henv', hwakes⟩
  cases hhandled : env.isHandled with
  | false =>
    rw [turn_of_not_isHandled hhandled hresolving]
    exact h.mono hmono
  | true =>
    have hafter : (m.world.afterSyscall env.event env.tid).Touches (Woken (envs ++ [env])) memory := by
      refine ⟨?_, (h.mono hmono).bytes⟩
      intro a ha
      rcases locked_handleSyscall ((env.event.rehash_same _).locked ha) with ha | hwakes
      . exact hmono a (h.locked a ha)
      . exact ⟨env, List.mem_append_right envs List.mem_cons_self, TurnEnv.wakes_iff.mpr ⟨hhandled, hwakes⟩⟩
    apply forall_turn_of_pass hhandled hresolving
    apply World.forall_pass_of_scanned
    . exact fun r st v _ _ hst => hst.resolveThreadDeadlock _ v
    . exact fun groupDeadlock hgroup => hafter.resolveGroupDeadlock _ hgroup
    . exact hafter

/--
In every run all bytes of the target are as they were in the beginning, or they are zero and lie next to a futex
that a handled stop of the run has woken.
-/
theorem zeroedNear_run (memory : Memory) (envs : List TurnEnv) :
    (run memory envs).Forall fun m => memory.ZeroedNear (Woken envs) m.world.memory := by
  have htouches : (run memory envs).Forall fun m => m.world.Touches (Woken envs) memory := by
    refine forall_run (I := fun envs m => m.world.Touches (Woken envs) memory) ?_ ?_ envs
    . refine ⟨?_, .refl⟩
      rintro a (⟨t, h⟩ | ⟨t, h⟩)
      . cases h
      . exact absurd h (USet.notMem_empty a)
    . exact fun envs env m hrun h => touches_turn (not_isResolving_run hrun) h env
  exact htouches.imp fun m h => h.bytes

end MainState

end DeadlockInterceptor
