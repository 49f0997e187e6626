import DeadlockInterceptor.Lemmas.BitsetCalls
import DeadlockInterceptor.Lemmas.Commutation
import DeadlockInterceptor.Lemmas.GroupReports
import DeadlockInterceptor.Lemmas.HolderGroups
import DeadlockInterceptor.Lemmas.Observing
import DeadlockInterceptor.Lemmas.TraceReading
import DeadlockInterceptor.Spec.SeenCalls

/-!
This module contains that no ring of waits goes unnoticed: as long as the loop of `main` is an observer its wait-for
graph is the one of the calls that it has seen, and the names of the threads do not stop a pass.
-/

open DirectedGraph

namespace DeadlockInterceptor

theorem handleSyscall_eq (env : Env) (tid : Pid) (regs : Regs) (s : GlobalState) :
    handleSyscall env tid (some regs) s
      =
    if regs.isFutexOp futexWake then
      (s.onWake env tid regs.rdi).onLock env tid regs.rdi
    else if regs.isWait || regs.isFutexOp futexWakeBitset then
      s.onWait env tid regs.rdi
    else
      s := by
  unfold handleSyscall Regs.isWait Regs.isFutexOp
  simp only
  generalize (regs.rsi &&& futexCmdMask).toUInt32 = op
  by_cases hsys : regs.origRax = sysFutex
  . by_cases hwake : op = futexWake
    . subst hwake
      simp [hsys, futexWake, futexWait]
    . by_cases hwait : op = futexWait
      . simp [hsys, hwait, futexWake, futexWait]
      . simp [hsys, hwake, hwait]
  . simp [hsys]

namespace Tracker

/-- The owners and the wait-for graph are those of the trace. -/
structure Follows (ident : Pid → ThreadName) (tr : Trace Pid) (s : Tracker) : Prop where
  owner : ∀ a, s.owner a = (tr.lastWaker a).map ident
  waits : ∀ t u, s.Waits (ident t) (ident u) ↔ tr.WaitsFor t u

variable {ident : Pid → ThreadName} {tr : Trace Pid} {s s' : Tracker}

theorem Follows.congr (h : Follows ident tr s) (howner : ∀ a, s'.owner a = s.owner a) (hwaits : s'.Waits = s.Waits) :
    Follows ident tr s' := ⟨fun a => (howner a).trans (h.owner a), hwaits ▸ h.waits⟩

theorem Follows.onWait (h : Follows ident tr s) (hinj : Function.Injective ident) (now : Time) (t : Pid) (a : Addr) :
    Follows ident (tr ++ [⟨.wait, t, a⟩]) (s.onWait now (ident t) a) :=
  ⟨owner_of_wait h.owner now t a, waits_of_wait h.owner h.waits hinj now t a⟩

theorem Follows.onWake (h : Follows ident tr s) (a : Addr) : Follows ident tr (s.onWake a) := by
  apply h.congr (fun b => onWake_owner _ _ _)
  funext x u
  exact propext (onWake_waits _ _ _ _)

theorem Follows.wake (h : Follows ident tr s) (hinj : Function.Injective ident) (now : Time) (t : Pid) (a : Addr) :
    Follows ident (tr ++ [⟨.wake, t, a⟩]) ((s.onWake a).onLock now (ident t) a) :=
  ⟨owner_of_wake h.owner now t a, waits_of_wake h.waits hinj now t a⟩

end Tracker

namespace GlobalState

variable {s : GlobalState} {env : TurnEnv}

theorem Known.handleSyscall {tid : Pid} {name : ThreadName} (h : s.Known tid name) (env : Env) (tid' : Pid)
    (regs : Option Regs) : (handleSyscall env tid' regs s).Known tid name := by
  cases regs with
  | none => exact h
  | some regs =>
    rw [handleSyscall_eq]
    split_ifs
    . exact (h.onWake _ _ _).onLock _ _ _
    . exact h.onWait _ _ _
    . exact h

theorem Known.observe {tid : Pid} {name : ThreadName} (h : s.Known tid name) (env : TurnEnv) :
    (s.observe env).Known tid name := by
  unfold GlobalState.observe
  split
  . exact (h.handleSyscall _ _ _).of_cache_eq rfl
  . exact h

section follows

variable {ident : Pid → ThreadName} {tr : Trace Pid}

theorem follows_rehash {tracker : Tracker} (h : tracker.Follows ident tr) (event : EventEnv) :
    (event.rehash tracker).Follows ident tr := by
  have hsame := event.rehash_same tracker
  exact h.congr hsame.owner hsame.waitsFor.edge_eq

theorem seenCall_of_regs {regs : Regs} (hregs : env.event.regs = some regs) :
    env.seenCall
      =
    if env.isHandled && !junkAddr regs.rdi then
      if regs.isFutexOp futexWake then some ⟨.wake, env.tid, regs.rdi⟩
      else if regs.isWait || regs.isFutexOp futexWakeBitset then some ⟨.wait, env.tid, regs.rdi⟩
      else none
    else
      none := by
  simp only [TurnEnv.seenCall, hregs]

theorem known_handleSyscall (s : GlobalState) (env : Env) (tid : Pid) {regs : Regs} (hjunk : junkAddr regs.rdi = false)
    (hcall : regs.isFutexOp futexWake = true ∨ (regs.isWait || regs.isFutexOp futexWakeBitset) = true) :
    (handleSyscall env tid (some regs) s).Known tid (s.threadIdentifier env.proc tid).1 := by
  have hknown := known_threadIdentifier s env.proc tid
  rw [handleSyscall_eq]
  split_ifs with hwake hwait
  . apply Known.onLock
    exact hknown.of_cache_eq rfl
  . simp only [GlobalState.onWait, hjunk]
    exact hknown.of_cache_eq rfl
  . exact absurd hcall (not_or.mpr ⟨hwake, hwait⟩)

theorem known_observe_of_seenCall {c : Call Pid} (hc : env.seenCall = some c) (s : GlobalState) :
    (s.observe env).Known env.tid (s.threadIdentifier env.event.call.proc env.tid).1 := by
  cases hregs : env.event.regs with
  | none => simp [TurnEnv.seenCall, hregs] at hc
  | some regs =>
    rw [seenCall_of_regs hregs] at hc
    by_cases hhandled : (env.isHandled && !junkAddr regs.rdi) = true
    . rw [if_pos hhandled] at hc
      rw [Bool.and_eq_true, Bool.not_eq_true'] at hhandled
      have hcall : regs.isFutexOp futexWake = true ∨ (regs.isWait || regs.isFutexOp futexWakeBitset) = true := by
        by_contra hnone
        rw [not_or] at hnone
        rw [if_neg hnone.1, if_neg hnone.2] at hc
        cases hc
      rw [observe_of_isHandled s hhandled.1, hregs]
      exact (known_handleSyscall s env.event.call env.tid hhandled.2 hcall).of_cache_eq rfl
    . rw [if_neg hhandled] at hc
      cases hc

theorem follows_observe (h : s.toTracker.Follows ident tr) (hinj : Function.Injective ident) (env : TurnEnv)
    (hname : ∀ c, env.seenCall = some c →
      ident env.tid = (s.threadIdentifier env.event.call.proc env.tid).1) :
    (s.observe env).toTracker.Follows ident (tr ++ env.seenCall.toList) := by
  cases hhandled : env.isHandled with
  | false =>
    have hnone : env.seenCall = none := by
      unfold TurnEnv.seenCall
      split <;> simp [hhandled]
    rw [hnone, observe_of_not_isHandled s hhandled]
    simpa using h
  | true =>
    rw [observe_of_isHandled s hhandled]
    apply follows_rehash
    cases hregs : env.event.regs with
    | none =>
      have hnone : env.seenCall = none := by simp [TurnEnv.seenCall, hregs]
      rw [hnone]
      simpa [handleSyscall] using h
    | some regs =>
      rw [handleSyscall_eq]
      rw [seenCall_of_regs hregs, hhandled, Bool.true_and] at hname ⊢
      cases hjunk : junkAddr regs.rdi with
      | true =>
        simp only [Bool.not_true, Bool.false_eq_true, ↓reduceIte, Option.toList_none, List.append_nil]
        split_ifs
        . rw [onWake_onLock_of_junk hjunk]
          exact h.onWake regs.rdi
        . rw [onWait_of_junk hjunk]
          exact h
        . exact h
      | false =>
        simp only [hjunk, Bool.not_false, ↓reduceIte] at hname ⊢
        split_ifs at hname ⊢
        . rw [onWake_onLock_toTracker hjunk, ← hname _ rfl]
          exact h.wake hinj _ _ _
        . rw [onWait_toTracker hjunk, ← hname _ rfl]
          exact h.onWait hinj _ _ _
        . simpa using h

theorem follows_observed_of_known (hinj : Function.Injective ident) (envs : List TurnEnv)
    (hknown : ∀ tid name, (observed envs).Known tid name → ident tid = name) :
    (observed envs).toTracker.Follows ident (seenCalls envs) := by
  induction envs using List.reverseRecOn with
  | nil => exact ⟨fun _ => rfl, fun t u => by simp [observed, init, Tracker.Waits, seenCalls, Trace.WaitsFor,
      Tracker.empty, AList.getD]⟩
  | append_singleton envs env ih =>
    rw [observed_concat] at hknown ⊢
    have hbefore := ih fun tid name h => hknown tid name (h.observe env)
    have hsplit : seenCalls (envs ++ [env]) = seenCalls envs ++ env.seenCall.toList := by
      cases hc : env.seenCall <;> simp [seenCalls, hc]
    rw [hsplit]
    apply follows_observe hbefore hinj
    intro c hc
    exact hknown _ _ (known_observe_of_seenCall hc _)

theorem follows_observed (envs : List TurnEnv) :
    (observed envs).toTracker.Follows (observed envs).identifier (seenCalls envs) :=
  follows_observed_of_known (identifier_injective _) envs fun _ _ h => h.identifier_eq

end follows

section names

def PlainName (name : Str) : Prop := '[' ∉ name ∧ name.length ≤ 255

structure PlainlyNamed (s : GlobalState) : Prop where
  cache : ∀ tid info, s.threadInfoCache.lookup tid = some info → PlainName info.name
  holders : ∀ t ∈ s.threadLocks, Parses t
  waiters : ∀ t ∈ s.waitsFor, Parses t

theorem PlainName.parses {name : Str} (h : PlainName name) {tid : Pid} (hpos : 0 < tid) (hle : tid ≤ 2147483647) :
    Parses (identifierOf name tid) := by
  refine ⟨tid, (extractTid_identifierOf_iff hpos hle ?_).mpr (.inl h.1)⟩
  have hlength := h.2
  have hstr := toStr_length_le hpos hle
  simp only [identifierOf, List.length_append, List.length_cons, List.length_nil]
  omega

theorem plainName_thread {tid : Pid} (hpos : 0 < tid) (hle : tid ≤ 2147483647) :
    PlainName (['t', 'h', 'r', 'e', 'a', 'd', '-'] ++ toStr tid) := by
  have hstr := toStr_length_le hpos hle
  constructor
  . intro hmem
    rcases List.mem_append.mp hmem with hmem | hmem
    . revert hmem
      decide
    . rcases eq_minus_or_isDigit_of_mem_toStr hmem with hminus | hdigit
      . cases hminus
      . revert hdigit
        decide
  . simp only [List.length_append, List.length_cons, List.length_nil]
    omega

theorem plain_getThreadName (targetPid : Pid) {proc : ProcFs} {tid : Pid} {cache : UMap Pid ThreadInfo}
    (hcache : ∀ tid info, cache.lookup tid = some info → PlainName info.name)
    (hpos : 0 < tid) (hle : tid ≤ 2147483647) (hcomm : '[' ∉ readComm (proc.comm tid))
    (htask : ∀ pid, '[' ∉ readComm (proc.taskComm pid tid)) :
    PlainName (getThreadName targetPid proc tid cache).1 ∧
      ∀ tid' info, (getThreadName targetPid proc tid cache).2.lookup tid' = some info → PlainName info.name := by
  unfold getThreadName
  cases hlookup : cache.lookup tid with
  | some info => exact ⟨hcache tid info hlookup, hcache⟩
  | none =>
    simp only
    generalize hfirst : (if readComm (proc.comm tid) = [] ∧ targetPid > 0 then readComm (proc.taskComm targetPid tid)
      else readComm (proc.comm tid)) = first
    have hplain : PlainName first := by
      rw [← hfirst]
      split_ifs
      . exact ⟨htask targetPid, readComm_length_le _⟩
      . exact ⟨hcomm, readComm_length_le _⟩
    have hname : PlainName (if first = [] then ['t', 'h', 'r', 'e', 'a', 'd', '-'] ++ toStr tid else first) := by
      split_ifs
      . exact plainName_thread hpos hle
      . exact hplain
    refine ⟨hname, ?_⟩
    intro tid' info hinfo
    rw [AList.lookup_insert_eq] at hinfo
    split at hinfo
    . rw [← Option.some.inj hinfo]
      exact hname
    . exact hcache tid' info hinfo

variable {callEnv : Env} {tid : Pid}

theorem handleSyscall_cases_onCall (callEnv : Env) (tid : Pid) (regs : Option Regs) (s : GlobalState) :
    ((handleSyscall callEnv tid regs s).threadInfoCache = s.threadInfoCache ∨
      (handleSyscall callEnv tid regs s).threadInfoCache = (s.threadIdentifier callEnv.proc tid).2.threadInfoCache) ∧
    ((handleSyscall callEnv tid regs s).toTracker = s.toTracker ∨ ∃ call a,
      (handleSyscall callEnv tid regs s).toTracker
        = s.toTracker.onCall call callEnv.now (s.threadIdentifier callEnv.proc tid).1 a) := by
  cases regs with
  | none => exact ⟨.inl rfl, .inl rfl⟩
  | some regs =>
    rw [handleSyscall_eq]
    cases hjunk : junkAddr regs.rdi with
    | true =>
      split_ifs
      . refine ⟨.inr ?_, .inr ⟨.wake, regs.rdi, ?_⟩⟩
        . simp only [onLock, hjunk, ↓reduceIte]
          rfl
        . rw [onWake_onLock_of_junk hjunk, Tracker.onCall, if_pos hjunk]
      . rw [onWait_of_junk hjunk]
        exact ⟨.inl rfl, .inl rfl⟩
      . exact ⟨.inl rfl, .inl rfl⟩
    | false =>
      split_ifs
      . refine ⟨.inr ?_, .inr ⟨.wake, regs.rdi, ?_⟩⟩
        . simp only [onLock, hjunk, onWake]
          exact congrArg (fun p => p.2.threadInfoCache) (threadIdentifier_again s callEnv.proc callEnv.proc tid)
        . rw [onWake_onLock_toTracker hjunk, Tracker.onCall, if_neg (by simp [hjunk])]
      . refine ⟨.inr ?_, .inr ⟨.wait, regs.rdi, ?_⟩⟩
        . simp only [onWait, hjunk]
          rfl
        . rw [onWait_toTracker hjunk, Tracker.onCall, if_neg (by simp [hjunk])]
      . exact ⟨.inl rfl, .inl rfl⟩

theorem PlainlyNamed.handleSyscall (h : s.PlainlyNamed) (henv : env.NamesPlainly) (hpos : 0 < env.tid)
    (regs : Option Regs) : (handleSyscall env.event.call env.tid regs s).PlainlyNamed := by
  obtain ⟨hname, hcache⟩ := plain_getThreadName s.targetPid h.cache hpos henv.tid_le henv.comm henv.taskComm
  have hparses : Parses (s.threadIdentifier env.event.call.proc env.tid).1 := hname.parses hpos henv.tid_le
  obtain ⟨hcaches, htracker⟩ := handleSyscall_cases_onCall env.event.call env.tid regs s
  have hcache' : ∀ tid info,
      (DeadlockInterceptor.handleSyscall env.event.call env.tid regs s).threadInfoCache.lookup tid = some info →
        PlainName info.name := by
    rcases hcaches with heq | heq
    . rw [heq]
      exact h.cache
    . rw [heq]
      exact hcache
  rcases htracker with heq | ⟨call, a, heq⟩
  . exact ⟨hcache', heq ▸ h.holders, heq ▸ h.waiters⟩
  . refine ⟨hcache', ?_, ?_⟩
    . rw [heq]
      intro t ht
      rcases (Tracker.onCall_mem_threadLocks _ _ _ _ _ _).mp ht with ⟨-, rfl⟩ | ht
      . exact hparses
      . exact h.holders t ht
    . rw [heq]
      intro t ht
      rcases (Tracker.onCall_mem_waitsFor _ _ _ _ _ _).mp ht with ⟨-, rfl, -⟩ | ht
      . exact hparses
      . exact h.waiters t ht

theorem PlainlyNamed.observe (h : s.PlainlyNamed) (henv : env.isHandled = true → env.NamesPlainly) :
    (s.observe env).PlainlyNamed := by
  cases hhandled : env.isHandled with
  | false =>
    rw [observe_of_not_isHandled s hhandled]
    exact h
  | true =>
    have hpos : 0 < env.tid := by
      simp only [TurnEnv.isHandled, TurnEnv.isSyscallStop, Bool.and_eq_true, decide_eq_true_eq] at hhandled
      exact hhandled.1.1.1.1
    have hcall := h.handleSyscall (henv hhandled) hpos env.event.regs
    have hsame := env.event.rehash_same
      (DeadlockInterceptor.handleSyscall env.event.call env.tid env.event.regs s).toTracker
    rw [observe_of_isHandled s hhandled]
    exact ⟨hcall.cache, fun t ht => hcall.holders t ((hsame.mem_threadLocks t).mp ht),
      fun t ht => hcall.waiters t ((hsame.waitsFor.mem t).mp ht)⟩

theorem plainlyNamed_observed {envs : List TurnEnv} (h : ∀ env ∈ envs, env.isHandled = true → env.NamesPlainly) :
    (observed envs).PlainlyNamed := by
  apply Run.foldl_invariant_mem (I := PlainlyNamed)
  . exact fun s env henv hs => hs.observe (h env henv)
  . refine ⟨?_, ?_, ?_⟩ <;> simp [init, Tracker.empty]

end names

end GlobalState

section groups

variable {s : Tracker}

theorem mem_of_mem_group {group : ConflictGroup} (hgroup : group ∈ analyzeConflictGroups s) {t : ThreadName}
    (ht : t ∈ group.threads) : t ∈ s.threadLocks ∨ t ∈ s.waitsFor := by
  have hfind := findGroup_eq_some_iff.mpr ⟨group, hgroup, rfl, ht⟩
  rw [findGroup_analyze] at hfind
  have hvisited : t ∈ (groupThreads s).visited := by
    rw [Grouping.partition_groupThreads.visited]
    exact AList.lookup_isSome.mp (by rw [hfind]; rfl)
  rw [Grouping.mem_visited_groupThreads, Grouping.mem_visited_holders] at hvisited
  exact hvisited

theorem detectGroupDeadlock_ne_error (hholders : ∀ t ∈ s.threadLocks, Parses t) (hwaiters : ∀ t ∈ s.waitsFor, Parses t)
    (ho : HashOrders) (e : Exn) : detectGroupDeadlock ho s ≠ .error e := by
  intro herr
  rcases detectGroupDeadlock_cases ho s with ⟨-, hok⟩ | ⟨⟨cyc, hcyc⟩, -⟩
  . rw [hok] at herr
    cases herr
  . have hparses : ∀ group ∈ analyzeConflictGroups s, ∀ t ∈ group.threads, Parses t := by
      intro group hgroup t ht
      rcases mem_of_mem_group hgroup ht with ht | ht
      . exact hholders t ht
      . exact hwaiters t ht
    obtain ⟨info, hinfo, -⟩ := exists_report hparses ⟨_, hcyc.transGen (List.head_mem hcyc.ne_nil)⟩ ho
    rw [hinfo] at herr
    cases herr

end groups

namespace MainState

theorem exists_isCycle_observed {envs : List TurnEnv} {ts : List Pid} (h : IsCycle (seenCalls envs).WaitsFor ts) :
    ∃ cyc, IsCycle (GlobalState.observed envs).Waits cyc := by
  have hfollows := GlobalState.follows_observed envs
  refine ⟨ts.map (GlobalState.observed envs).identifier, by simpa using h.ne_nil, ?_⟩
  intro i hi
  rw [succAt_map, List.getElem_map, hfollows.waits]
  exact h.edge i (by simpa using hi)

theorem isHandled_of_seenCall {env : TurnEnv} {c : Call Pid} (hc : env.seenCall = some c) : env.isHandled = true := by
  unfold TurnEnv.seenCall at hc
  split at hc
  . cases hc
  . split at hc
    . next hhandled => exact (Bool.and_eq_true_iff.mp hhandled).1
    . cases hc

theorem not_uneventful_of_ring {before : List TurnEnv} (after : List TurnEnv) {ts : List Pid}
    (hplain : ∀ env ∈ before, env.isHandled = true → env.NamesPlainly)
    (hring : IsCycle (seenCalls before).WaitsFor ts) : ¬Uneventful (before ++ after) := by
  induction before using List.reverseRecOn generalizing after with
  | nil =>
    obtain ⟨y, ⟨pre, c, post, heq, -⟩, -⟩ := hring.exists_succ (List.head_mem hring.ne_nil)
    simp [seenCalls] at heq
  | append_singleton before env ih =>
    intro h
    cases hc : env.seenCall with
    | none =>
      have hsame : seenCalls (before ++ [env]) = seenCalls before := by simp [seenCalls, hc]
      rw [hsame] at hring
      refine ih (env :: after) (fun env' henv' => hplain env' (List.mem_append_left _ henv')) hring ?_
      rwa [List.append_cons]
    | some c =>
      have hnamed := GlobalState.plainlyNamed_observed hplain
      rcases h before env (List.prefix_append _ _) (isHandled_of_seenCall hc) with ⟨e, herr⟩ | ⟨-, hno⟩
      . exact detectGroupDeadlock_ne_error hnamed.holders hnamed.waiters _ e herr
      . exact hno (exists_isCycle_observed hring)

/--
As soon as the calls that have been seen make a ring of threads that wait for each other the monitor takes up a
deadlock, whatever the calls of the resolutions return and whatever happens after.
-/
theorem counter_pos_of_ring (memory : Memory) {before : List TurnEnv} {ts : List Pid}
    (hplain : ∀ env ∈ before, env.isHandled = true → env.NamesPlainly)
    (hring : IsCycle (seenCalls before).WaitsFor ts) (after : List TurnEnv) :
    (run memory (before ++ after)).Forall fun m => 0 < m.world.deadlockCounter :=
  counter_pos_of_eventful memory (not_uneventful_of_ring after hplain hring)

theorem seenCalls_crossTurns :
    seenCalls crossTurns
      =
    [⟨.wake, 1, 0x10000⟩, ⟨.wake, 2, 0x10010⟩, ⟨.wait, 1, 0x10010⟩, ⟨.wait, 2, 0x10000⟩] := by
  decide

theorem isCycle_crossTurns : IsCycle (seenCalls crossTurns).WaitsFor [1, 2] := by
  rw [seenCalls_crossTurns]
  refine .of_isChain (.cons_cons ⟨[⟨.wake, 1, 0x10000⟩, ⟨.wake, 2, 0x10010⟩], ⟨.wait, 1, 0x10010⟩,
    [⟨.wait, 2, 0x10000⟩], ?_⟩ (.singleton 2))
    ⟨[⟨.wake, 1, 0x10000⟩, ⟨.wake, 2, 0x10010⟩, ⟨.wait, 1, 0x10010⟩], ⟨.wait, 2, 0x10000⟩, [], ?_⟩
  . decide
  . decide

theorem namesPlainly_crossTurns : ∀ env ∈ crossTurns, env.isHandled = true → env.NamesPlainly := by
  simp only [crossTurns, List.forall_mem_cons, List.not_mem_nil, false_implies, implies_true, and_true]
  refine ⟨fun _ => ?_, fun _ => ?_, fun _ => ?_, fun _ => ?_⟩ <;>
    exact ⟨by decide, List.not_mem_nil, fun _ => List.not_mem_nil⟩

theorem counter_pos_of_ring_cross :
    (run (fun _ => 1) (crossTurns ++ crossTurns)).Forall fun m => 0 < m.world.deadlockCounter :=
  counter_pos_of_ring (fun _ => 1) namesPlainly_crossTurns isCycle_crossTurns crossTurns

end MainState

end DeadlockInterceptor
