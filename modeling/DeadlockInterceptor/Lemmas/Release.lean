import DeadlockInterceptor.Lemmas.FutexUnlocker
import DeadlockInterceptor.Lemmas.Resolvers
import DeadlockInterceptor.Impl.Resolution

/-!
This module contains when a deadlock that is declared resolved has been released. None of the resolvers looks
at what has become of the locks.
-/

namespace DeadlockInterceptor

theorem ShadowRun.accounted (run : ShadowRun) (involvedLocks : List Addr) (memory : Memory) :
    FutexUnlocker.Accounted run.mortalKernel memory (run.unlocker involvedLocks memory) :=
  FutexUnlocker.preserves_unlockMultiple (fun addr _ => FutexUnlocker.unlockInvariant_accounted _ memory addr) 7 _
    (FutexUnlocker.accounted_init _ memory)

namespace World

def Awaited (w : World) (cycle : List ThreadName) (a : Addr) : Prop := ∃ t ∈ cycle, t ∈ w.waiters a

/--
A lock word that a thread of the cycle waits on has been set to zero.
-/
def Released (w w' : World) (cycle : List ThreadName) : Prop :=
  ∃ a, w.Awaited cycle a ∧ w.memory.word a ≠ 0 ∧ w'.memory.word a = 0

end World

namespace ShadowRun

variable (run : ShadowRun)

def issued (involvedLocks : List Addr) (memory : Memory) : List SysCall :=
  (run.unlocker involvedLocks memory).log.map Prod.fst

def Writes (involvedLocks : List Addr) (memory : Memory) (a : Addr) : Prop :=
  ∃ (k : Nat) (c : SysCall) (addr : Addr) (n : Nat), (run.issued involvedLocks memory)[k]? = some c ∧
    c.written (run.mortalKernel.reply k) = some (addr, n) ∧ (a - addr).toNat < n

/--
The writes of the shadow process that have completed cover all bytes that are set in a lock word a thread of
the cycle waits on.
-/
def Covers (w : World) (deadlock : DeadlockInfo) : Prop :=
  ∃ a, w.Awaited deadlock.cycle a ∧ w.memory.word a ≠ 0 ∧
    ∀ i ∈ [0, 1, 2, 3], w.memory (a + i) ≠ 0 → run.Writes deadlock.involvedLocks w.memory (a + i)

theorem overwritten_iff_writes (involvedLocks : List Addr) (memory : Memory) (a : Addr) :
    Overwritten (run.unlocker involvedLocks memory).log a ↔ run.Writes involvedLocks memory a := by
  have hreplies := (run.accounted involvedLocks memory).replies
  constructor
  . rintro ⟨e, he, addr, n, hwritten, ha⟩
    obtain ⟨k, hk⟩ := List.mem_iff_getElem?.mp he
    refine ⟨k, e.1, addr, n, ?_, ?_, ha⟩
    . rw [issued, List.getElem?_map, hk, Option.map_some]
    . rw [← hreplies k e hk]
      exact hwritten
  . rintro ⟨k, c, addr, n, hk, hwritten, ha⟩
    rw [issued, List.getElem?_map, Option.map_eq_some_iff] at hk
    obtain ⟨e, hk, rfl⟩ := hk
    refine ⟨e, List.mem_of_getElem? hk, addr, n, ?_, ha⟩
    rw [hreplies k e hk]
    exact hwritten

end ShadowRun

def GroupDeadlockInfo.pwrites (ho : HashOrders) (env : GroupEnv) (groupDeadlock : GroupDeadlockInfo) :
    List (Addr × Reply) :=
  if env.openMem then
    (groupDeadlock.allLocks ho).zipIdx.map fun (lockAddr, k) => (lockAddr, env.pwrite k)
  else
    []

def GroupDeadlockInfo.Written (ho : HashOrders) (env : GroupEnv) (groupDeadlock : GroupDeadlockInfo) :
    Prop :=
  ∃ lockAddr, (∃ res ∈ groupDeadlock.groupResolutions, lockAddr ∈ res.heldLocks) ∧
    (lockAddr, .ok 4) ∈ groupDeadlock.pwrites ho env

theorem GroupDeadlockInfo.mem_allLocks {ho : HashOrders} {groupDeadlock : GroupDeadlockInfo}
    {lockAddr : Addr} :
    lockAddr ∈ groupDeadlock.allLocks ho
      ↔
    ∃ res ∈ groupDeadlock.groupResolutions, lockAddr ∈ res.heldLocks := by
  simp [allLocks]

theorem GroupDeadlockInfo.written_iff {ho : HashOrders} {env : GroupEnv}
    {groupDeadlock : GroupDeadlockInfo} :
    groupDeadlock.Written ho env
      ↔
    env.openMem = true ∧ ∃ k < (groupDeadlock.allLocks ho).length, env.pwrite k = .ok 4 := by
  unfold Written pwrites
  constructor
  . rintro ⟨lockAddr, -, hmem⟩
    split at hmem
    . next hopen =>
      obtain ⟨⟨l, k⟩, hin, heq⟩ := List.mem_map.mp hmem
      obtain ⟨hk, -⟩ := List.mk_mem_zipIdx_iff_getElem?.mp hin |> List.getElem?_eq_some_iff.mp
      exact ⟨hopen, k, hk, (Prod.mk.inj heq).2⟩
    . exact absurd hmem List.not_mem_nil
  . rintro ⟨hopen, k, hk, hreply⟩
    refine ⟨(groupDeadlock.allLocks ho)[k], ?_, ?_⟩
    . exact mem_allLocks.mp (List.getElem_mem hk)
    . rw [if_pos hopen, List.mem_map]
      refine ⟨((groupDeadlock.allLocks ho)[k], k), ?_, congrArg (Prod.mk _) hreply⟩
      exact List.mk_mem_zipIdx_iff_getElem?.mpr (List.getElem?_eq_getElem hk)

namespace World

variable {w w' : World} {deadlock : DeadlockInfo}

theorem resolveGroupDeadlock_memory (ho : HashOrders) (env : GroupEnv)
    (groupDeadlock : GroupDeadlockInfo) (w : World) :
    (w.resolveGroupDeadlock ho env groupDeadlock).2.memory
      =
    (groupDeadlock.pwrites ho env).foldl (fun memory (lockAddr, reply) =>
      match (SysCall.pwrite lockAddr).written reply with
      | some (addr, n) => memory.zero addr n
      | none => memory) w.memory := by
  unfold resolveGroupDeadlock GroupDeadlockInfo.pwrites
  cases env.openMem with
  | true =>
    simp only [↓reduceIte, List.foldl_map]
    rfl
  | false => rfl

theorem released_iff_covers {run : ShadowRun}
    (hw' : w'.memory = (run.unlocker deadlock.involvedLocks w.memory).memory) :
    w.Released w' deadlock.cycle ↔ run.Covers w deadlock := by
  unfold Released ShadowRun.Covers
  simp only [hw', (run.accounted deadlock.involvedLocks w.memory).word_eq_zero_iff, run.overwritten_iff_writes]

theorem released_of_strategy1_iff {env : Strategy1Env} :
    (∀ w', w.resolveDeadlockStrategy1 env deadlock = (.ok true, w') → w.Released w' deadlock.cycle)
      ↔
    ∀ victimName victimTid run status,
      findVictim env.threadExists deadlock.cycle = .ok (some (victimName, victimTid)) → victimTid ≠ 0 →
        env.shadow = some run → run.status = some status → run.Covers w deadlock := by
  constructor
  . intro h victimName victimTid run status hfind htid hrun hstatus
    exact (released_iff_covers rfl).mp
      (h _ (resolveDeadlockStrategy1_of_shadow hfind htid hrun hstatus))
  . intro h w' hresult
    rcases resolveDeadlockStrategy1_cases env deadlock w with
      ⟨e, -, heq⟩ | ⟨memory, heq⟩ | ⟨victim, tid, run, status, hfind, htid, hrun, hstatus, heq⟩
    . rw [heq, Prod.mk.injEq] at hresult
      exact absurd hresult.1 (by simp)
    . rw [heq, Prod.mk.injEq] at hresult
      exact absurd hresult.1 (by simp)
    . rw [heq, Prod.mk.injEq] at hresult
      refine (released_iff_covers ?_).mpr (h victim tid run status hfind htid hrun hstatus)
      rw [← hresult.2]

theorem exists_strategy1_true_of_victim {threadExists : Pid → Bool} {victimName : ThreadName}
    {victimTid : Pid} (hfind : findVictim threadExists deadlock.cycle = .ok (some (victimName, victimTid)))
    (htid : victimTid ≠ 0) :
    ∃ shadow w', w.resolveDeadlockStrategy1 ⟨threadExists, shadow⟩ deadlock = (.ok true, w') ∧
      w'.memory = w.memory := by
  let run : ShadowRun := ⟨⟨fun _ => .error 3, 0⟩, none, some (.exited 0)⟩
  refine ⟨some run, _, resolveDeadlockStrategy1_of_shadow hfind htid rfl rfl, ?_⟩
  have haccounted := run.accounted deadlock.involvedLocks w.memory
  funext a
  apply haccounted.frame
  rintro ⟨e, he, addr, n, hwritten, -⟩
  obtain ⟨k, hk⟩ := List.mem_iff_getElem?.mp he
  rw [haccounted.replies k e hk] at hwritten
  cases e.1 <;> exact absurd hwritten (by simp [SysCall.written, run, ShadowRun.mortalKernel])

/--
When what is declared resolved has been released: by strategy 1 exactly if the completed writes of the
shadow process cover a lock word of the cycle, or if there is no victim, no shadow process or no status of it
so that nothing is declared; by the resolution of groups exactly if one of its writes has completed.
-/
theorem resolved_released_iff (w : World) :
    (∀ env deadlock,
      (∀ w', w.resolveDeadlockStrategy1 env deadlock = (.ok true, w') →
        w.Released w' deadlock.cycle)
        ↔
      ∀ victimName victimTid run status,
        findVictim env.threadExists deadlock.cycle = .ok (some (victimName, victimTid)) →
          victimTid ≠ 0 → env.shadow = some run → run.status = some status →
            run.Covers w deadlock) ∧
    (∀ ho env groupDeadlock,
      ((w.resolveGroupDeadlock ho env groupDeadlock).1 = true → groupDeadlock.Written ho env)
        ↔
      env.openMem = true ∧ ∃ k < (groupDeadlock.allLocks ho).length, env.pwrite k = .ok 4) := by
  constructor
  . exact fun env deadlock => released_of_strategy1_iff
  . intro ho env groupDeadlock
    rw [← GroupDeadlockInfo.written_iff]
    exact ⟨fun h => h rfl, fun h _ => h⟩

/-- A deadlock without a known lock is declared resolved, and nothing has been written. -/
theorem exists_unreleased :
    ¬∀ (w w' : World) (env : Strategy1Env) (deadlock : DeadlockInfo),
      w.resolveDeadlockStrategy1 env deadlock = (.ok true, w') → w.Released w' deadlock.cycle := by
  intro h
  obtain ⟨a, -, hset, hzero⟩ := h ⟨.init, fun _ => 1⟩ _
    ⟨fun _ => true, some ⟨⟨fun _ => .error 3, 0⟩, none, some (.exited 0)⟩⟩
    ⟨[['a', '[', '1', ']'], ['b', '[', '2', ']'], ['a', '[', '1', ']']], [], 1, false⟩ rfl
  exact hset hzero

end World

end DeadlockInterceptor
