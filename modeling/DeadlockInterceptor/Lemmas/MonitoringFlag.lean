import DeadlockInterceptor.Lemmas.FalseReports
import DeadlockInterceptor.Lemmas.ScanGraph

/-!
This module contains when the handler of an event leaves the detection switched on. The resolvers switch it
off, and not all of the ways out of them switch it on again.
-/

open Relation DirectedGraph

namespace DeadlockInterceptor

def Parses (threadName : ThreadName) : Prop := ∃ tid, extractTidFromIdentifier threadName = .ok tid

theorem findVictim_ne_error {threadExists : Pid → Bool} {l : List ThreadName} (h : ∀ x ∈ l, Parses x)
    (e : Exn) : findVictim threadExists l ≠ .error e := by
  intro herr
  rcases findVictim_cases threadExists l with
    ⟨pre, victim, post, tid, -, -, -, -, heq⟩ | ⟨x, hx, e', hthrows, -⟩ | ⟨-, heq⟩
  . rw [heq] at herr
    simp at herr
  . obtain ⟨tid, htid⟩ := h x hx
    rw [htid] at hthrows
    simp at hthrows
  . rw [heq] at herr
    simp at herr

namespace World

variable {w w' : World} {cycle : List ThreadName}

theorem active_of_resolveThreadDeadlock {env : ResolveEnv} (hparses : ∀ x ∈ cycle, Parses x) {res : Except Exn Unit}
    (h : w.resolveThreadDeadlock env cycle = (res, w')) :
    res = .ok () ∧ w'.monitoringActive = true := by
  unfold resolveThreadDeadlock at h
  simp only at h
  generalize hdeadlock : DeadlockInfo.mk cycle _ _ false = deadlock at h
  have hcycle : deadlock.cycle = cycle := by rw [← hdeadlock]
  rcases resolveDeadlockStrategy1_cases env.strategy1 deadlock
      { w with deadlockCounter := w.deadlockCounter + 1 } with
    ⟨e, herr, -⟩ | ⟨memory, heq⟩ | ⟨victim, tid, run, status, -, -, -, -, heq⟩
  . rw [hcycle] at herr
    exact absurd herr (findVictim_ne_error hparses e)
  . rw [heq] at h
    simp only at h
    rcases emergencyDeadlockBreak_cases env.emergency deadlock
        { w with deadlockCounter := w.deadlockCounter + 1, memory := memory, monitoringActive := true }
      with ⟨e, herr, -⟩ | ⟨-, heq2⟩ | ⟨victim, tid, w'', -, heq2, -, hactive'', -, -⟩
    . rw [hcycle] at herr
      exact absurd herr (findVictim_ne_error hparses e)
    . rw [heq2, Prod.mk.injEq] at h
      rw [← h.2]
      exact ⟨h.1.symm, rfl⟩
    . rw [heq2, Prod.mk.injEq] at h
      rw [← h.2]
      exact ⟨h.1.symm, hactive''⟩
  . rw [heq, Prod.mk.injEq] at h
    rw [← h.2]
    exact ⟨h.1.symm, rfl⟩

theorem resolveThreadDeadlock_of_error (env : ResolveEnv) (w : World) {e : Exn}
    (hfind : findVictim env.strategy1.threadExists cycle = .error e) :
    ∃ w', w.resolveThreadDeadlock env cycle = (.error e, w') ∧ w'.monitoringActive = false := by
  have hresult : (w.resolveThreadDeadlock env cycle).1 = .error e ∧
      (w.resolveThreadDeadlock env cycle).2.monitoringActive = false := by
    simp only [resolveThreadDeadlock, resolveDeadlockStrategy1, hfind]
    exact ⟨trivial, rfl⟩
  exact ⟨_, Prod.ext hresult.1 rfl, hresult.2⟩

theorem resolveThreadDeadlock_of_none (env : ResolveEnv) (w : World)
    (hfind1 : findVictim env.strategy1.threadExists cycle = .ok none)
    (hfind2 : findVictim env.emergency.threadExists cycle = .ok none) :
    ∃ w' deadlock, w.resolveThreadDeadlock env cycle = (.ok (), w') ∧ deadlock.cycle = cycle ∧
      w'.waitsFor = w.waitsFor ∧ w'.detectedDeadlocks = w.detectedDeadlocks ++ [deadlock] ∧
      w'.deadlockCounter = w.deadlockCounter + 1 := by
  have hresult : (w.resolveThreadDeadlock env cycle).1 = .ok () ∧
      (w.resolveThreadDeadlock env cycle).2.waitsFor = w.waitsFor ∧
      (w.resolveThreadDeadlock env cycle).2.detectedDeadlocks = w.detectedDeadlocks
        ++ [⟨cycle, findLocksInDeadlock w.toTracker cycle, w.deadlockCounter + 1, false⟩] ∧
      (w.resolveThreadDeadlock env cycle).2.deadlockCounter = w.deadlockCounter + 1 := by
    simp only [resolveThreadDeadlock, resolveDeadlockStrategy1, hfind1, emergencyDeadlockBreak, hfind2]
    exact ⟨trivial, rfl, rfl, rfl⟩
  exact ⟨_, _, Prod.ext hresult.1 rfl, rfl, hresult.2⟩

end World

namespace ScanState

theorem turn_of_none (env : ResolveEnv) (st : ScanState) {r : ThreadName} {d : DfsState}
    (hmem : r ∈ st.world.waitsFor) (hvis : r ∉ st.visited)
    (hd : dfsDeadlock st.world.waitsFor r st.dfsState = (true, d)) (hlength : 2 ≤ d.cycle.reverse.length)
    (hnew : ∀ existing ∈ st.world.detectedDeadlocks, existing.cycle ≠ d.cycle.reverse)
    (hfind1 : findVictim env.strategy1.threadExists d.cycle.reverse = .ok none)
    (hfind2 : findVictim env.emergency.threadExists d.cycle.reverse = .ok none) :
    ∃ w' deadlock, st.turn env r = .returned { st.afterDfs d with world := w' } ∧
      deadlock.cycle = d.cycle.reverse ∧ w'.waitsFor = st.world.waitsFor ∧
      w'.detectedDeadlocks = st.world.detectedDeadlocks ++ [deadlock] ∧
      w'.deadlockCounter = st.world.deadlockCounter + 1 := by
  obtain ⟨w', deadlock, hres, hcycle, hwaits, hbooked⟩ :=
    World.resolveThreadDeadlock_of_none env st.world hfind1 hfind2
  have hturn := turn_of_new env st hmem hvis hd hlength hnew
  rw [hres] at hturn
  simp only at hturn
  rw [hwaits, if_neg (not_not.mpr hmem)] at hturn
  exact ⟨w', deadlock, hturn, hcycle, hwaits, hbooked⟩

section sufficiency

variable {env : ThreadName → ResolveEnv} {w : World} {st st' : ScanState} {r : ThreadName}

theorem Within.active_turn (h : Within w st) (env : ResolveEnv) (r : ThreadName)
    (hparses : ∀ t, ReachesCycle w.Waits t → Parses t) (hactive : st.world.monitoringActive = true) :
    (∀ st', st.turn env r = .returned st' → st'.world.monitoringActive = true) ∧
      ∀ e st', st.turn env r ≠ .thrown e st' := by
  rcases turn_cases env r st with ⟨-, heq⟩ | ⟨-, hvis, b, d, hd, hcases⟩
  . rw [heq]
    simp [hactive]
  . rcases hcases with ⟨-, heq⟩ | ⟨rfl, heq | ⟨res, w', hres, hends⟩⟩
    . rw [heq]
      simp [afterDfs, hactive]
    . rw [heq]
      simp [afterDfs, hactive]
    . have hreported := (h.reported hvis hd).1
      obtain ⟨rfl, hactive'⟩ := World.active_of_resolveThreadDeadlock
        (fun x hx => hparses x (hreported.reaches x hx)) hres
      rcases hends with ⟨e, herr, -⟩ | ⟨-, heq⟩ | ⟨-, heq⟩
      . simp at herr
      . rw [heq]
        simp
      . rw [heq]
        simp [hactive']

theorem active_of_loop (env : ThreadName → ResolveEnv) (keys : List ThreadName)
    (hparses : ∀ t, ReachesCycle w.Waits t → Parses t)
    (h : Within w st) (hactive : st.world.monitoringActive = true) :
    (∀ st', loop env keys st = .returned st' → st'.world.monitoringActive = true) ∧
      ∀ e st', loop env keys st ≠ .thrown e st' := by
  induction keys generalizing st with
  | nil => simp [loop, hactive]
  | cons r keys ih =>
    obtain ⟨hreturned, hthrown⟩ := h.active_turn (env r) r hparses hactive
    rw [loop]
    cases hturn : st.turn (env r) r with
    | returned st₁ => exact ih (h.turn hturn) (hreturned st₁ hturn)
    | thrown e st₁ => exact absurd hturn (hthrown e st₁)
    | undefined => simp

end sufficiency

section necessity

variable {w : World} {st : ScanState} {r : ThreadName}

structure Probed (w : World) (st : ScanState) : Prop extends Within w st where
  waitsFor : st.world.waitsFor = w.waitsFor
  recorded : ∀ deadlock ∈ st.world.detectedDeadlocks, ∃ x ∈ st.visited, deadlock.cycle.head? = some x
  parses : ∀ x ∈ st.stack, Parses x

theorem Probed.turn (h : Probed w st) (r : ThreadName) :
    (∃ e st', st.turn (deadEnv r) r = .thrown e st' ∧ st'.world.monitoringActive = false) ∨
    (∃ st', st.turn (deadEnv r) r = .returned st' ∧ Probed w st' ∧ st.visited ⊆ st'.visited ∧
      (r ∈ w.waitsFor → r ∈ st'.visited)) := by
  rcases turn_cases (deadEnv r) r st with ⟨hskip, heq⟩ | ⟨hmem, hvis, b, d, hd, hcases⟩
  . refine .inr ⟨st, heq, h, subset_rfl, ?_⟩
    intro hr
    rw [h.waitsFor] at hskip
    exact hskip.resolve_left (not_not.mpr hr)
  . have hcalled := h.called hvis hd
    have hsub : st.visited ⊆ d.visited := (Finset.subset_insert r st.visited).trans hcalled.visited
    have hin : r ∈ d.visited := hcalled.visited (Finset.mem_insert_self r st.visited)
    have hold : ∀ deadlock ∈ st.world.detectedDeadlocks,
        ∃ x ∈ d.visited, deadlock.cycle.head? = some x := by
      intro deadlock hdeadlock
      obtain ⟨x, hx, hhead⟩ := h.recorded deadlock hdeadlock
      exact ⟨x, hsub hx, hhead⟩
    rcases hcases with ⟨rfl, heq⟩ | ⟨rfl, -⟩
    . refine .inr ⟨_, heq, ⟨h.toWithin.turn heq, h.waitsFor, hold, ?_⟩, hsub, fun _ => hin⟩
      rw [afterDfs, (hcalled.notFound rfl).1]
      exact h.parses
    . obtain ⟨hreported, hstack⟩ := h.reported hvis hd
      -- the vectors that have been recorded start with other threads
      have hnew : ∀ existing ∈ st.world.detectedDeadlocks, existing.cycle ≠ d.cycle.reverse := by
        intro existing hexisting heq
        obtain ⟨x, hx, hhead⟩ := h.recorded existing hexisting
        rw [heq, hreported.head, Option.some.injEq] at hhead
        exact hvis (hhead ▸ hx)
      rcases findVictim_cases (fun _ => false) d.cycle.reverse with
        ⟨_, _, _, _, -, -, -, hlive, -⟩ | ⟨x, -, e, -, herr⟩ | ⟨hdead, hnone⟩
      . simp at hlive
      . obtain ⟨w', hres, hoff⟩ := World.resolveThreadDeadlock_of_error (deadEnv r) st.world
          herr
        have hturn := turn_of_new (deadEnv r) st hmem hvis hd hreported.two_le_length hnew
        rw [hres] at hturn
        exact .inl ⟨e, _, hturn, hoff⟩
      . obtain ⟨w', deadlock, hturn, hcycle, hwaits, hrecorded, -⟩ :=
          turn_of_none (deadEnv r) st hmem hvis hd hreported.two_le_length hnew hnone hnone
        refine .inr ⟨_, hturn, ⟨h.toWithin.turn hturn, hwaits.trans h.waitsFor, ?_, ?_⟩, hsub,
          fun _ => hin⟩
        . intro existing hexisting
          rw [hrecorded, List.mem_append, List.mem_singleton] at hexisting
          rcases hexisting with hexisting | rfl
          . exact hold existing hexisting
          . exact ⟨r, hin, by rw [hcycle]; exact hreported.head⟩
        . intro x hx
          rcases hstack x hx with hx | hx
          . exact h.parses x hx
          . obtain ⟨tid, htid, -⟩ := hdead x hx
            exact ⟨tid, htid⟩

theorem Probed.loop (h : Probed w st) (keys : List ThreadName) :
    (∃ e st', loop deadEnv keys st = .thrown e st' ∧ st'.world.monitoringActive = false) ∨
    (∃ st', loop deadEnv keys st = .returned st' ∧ Probed w st' ∧ st.visited ⊆ st'.visited ∧
      ∀ t ∈ keys, t ∈ w.waitsFor → t ∈ st'.visited) := by
  induction keys generalizing st with
  | nil => exact .inr ⟨st, rfl, h, subset_rfl, by simp⟩
  | cons r keys ih =>
    rw [ScanState.loop]
    rcases h.turn r with ⟨e, st', hturn, hoff⟩ | ⟨st₁, hturn, h₁, hsub₁, hr⟩
    . rw [hturn]
      exact .inl ⟨e, st', rfl, hoff⟩
    . rw [hturn]
      rcases ih h₁ with hthrown | ⟨st', hloop, h', hsub', hall⟩
      . exact .inl hthrown
      . refine .inr ⟨st', hloop, h', hsub₁.trans hsub', ?_⟩
        intro t ht htw
        rcases List.mem_cons.mp ht with rfl | ht
        . exact hsub' (hr htw)
        . exact hall t ht htw

theorem parses_of_loop (hrecorded : w.detectedDeadlocks = [])
    (hloop : ∀ e st', loop deadEnv w.waitsFor.keys ⟨w, ∅, ∅⟩ = .thrown e st' →
      st'.world.monitoringActive = true) {t : ThreadName} (ht : ReachesCycle w.Waits t) : Parses t := by
  have hinit : Probed w ⟨w, ∅, ∅⟩ := by
    refine ⟨within_init w, rfl, ?_, fun x hx => absurd hx (Finset.notMem_empty x)⟩
    rw [hrecorded]
    exact fun deadlock hdeadlock => absurd hdeadlock List.not_mem_nil
  rcases hinit.loop w.waitsFor.keys with ⟨e, st', hthrown, hoff⟩ | ⟨st', -, h, -, hall⟩
  . rw [hloop e st' hthrown] at hoff
    simp at hoff
  . -- the search has not left `t`, so it is on the stack
    obtain ⟨u, htu, -⟩ := reachesCycle_iff.mp ht
    have hmem := WaitsFor.Edge.mem (w := w.waitsFor) htu
    have hvis := hall t (AList.mem_keys.mp hmem) hmem
    apply h.parses
    by_contra hstack
    have hfinished := h.finished
    rw [h.waitsFor] at hfinished
    exact hfinished t hvis hstack ht

end necessity

end ScanState

section groups

theorem detectGroupDeadlock_cases (ho : HashOrders) (s : Tracker) :
    ((¬∃ cyc, IsCycle (GroupWaits s) cyc) ∧ detectGroupDeadlock ho s = .ok {}) ∨
    ((∃ cyc, IsCycle (GroupWaits s) cyc) ∧
      ((∃ e, detectGroupDeadlock ho s = .error e) ∨
        ∃ groupDeadlock, detectGroupDeadlock ho s = .ok groupDeadlock ∧
          2 ≤ groupDeadlock.groupCycle.length)) := by
  by_cases hnil : findGroupCycles ho s = []
  . refine .inl ⟨?_, ?_⟩
    . rintro ⟨cyc, hcyc⟩
      exact findGroupCycles_eq_nil_iff.mp hnil _ (hcyc.transGen (List.head_mem hcyc.ne_nil))
    . simp only [detectGroupDeadlock, hnil, List.length_nil, Nat.zero_lt_two, ↓reduceIte]
      rfl
  . have hcyc := (findGroupCycles_spec.1 hnil).1
    have hlength := GroupWaits.two_le_length hcyc
    refine .inr ⟨⟨_, hcyc⟩, ?_⟩
    unfold detectGroupDeadlock
    simp only [if_neg (Nat.not_lt.mpr hlength)]
    cases detectGroupDeadlock.resolutions ho (expandGroupCycleToThreads ho s (findGroupCycles ho s))
        (analyzeConflictGroups s) (findGroupCycles ho s) with
    | error e => exact .inl ⟨e, rfl⟩
    | ok groupResolutions => exact .inr ⟨_, rfl, hlength⟩

end groups

theorem handleSyscall_setRecorded (env : Env) (tid : Pid) (regs : Option Regs) (s : GlobalState)
    (recorded : List DeadlockInfo) :
    handleSyscall env tid regs { s with detectedDeadlocks := recorded }
      =
    { handleSyscall env tid regs s with detectedDeadlocks := recorded } := by
  have hwait : ∀ addr, GlobalState.onWait env tid addr { s with detectedDeadlocks := recorded }
      = { s.onWait env tid addr with detectedDeadlocks := recorded } := by
    intro addr
    unfold GlobalState.onWait
    split <;> rfl
  have hwake : ∀ addr,
      (GlobalState.onWake env tid addr { s with detectedDeadlocks := recorded }).onLock env tid addr
      = { (s.onWake env tid addr).onLock env tid addr with detectedDeadlocks := recorded } := by
    intro addr
    unfold GlobalState.onLock
    split <;> rfl
  unfold handleSyscall
  cases regs with
  | none => rfl
  | some regs =>
    simp only [hwait, hwake]
    split_ifs <;> rfl

theorem handleSyscall_frame (env : Env) (tid : Pid) (regs : Option Regs) (s : GlobalState) :
    ∃ tracker cache, handleSyscall env tid regs s = { s with toTracker := tracker, threadInfoCache := cache } := by
  have hwait : ∀ addr, ∃ tracker cache,
      s.onWait env tid addr = { s with toTracker := tracker, threadInfoCache := cache } := by
    intro addr
    unfold GlobalState.onWait
    split
    . exact ⟨_, _, rfl⟩
    . exact ⟨_, _, rfl⟩
  have hwake : ∀ addr, ∃ tracker cache, (s.onWake env tid addr).onLock env tid addr
      = { s with toTracker := tracker, threadInfoCache := cache } := by
    intro addr
    unfold GlobalState.onLock
    split
    . exact ⟨_, _, rfl⟩
    . exact ⟨_, _, rfl⟩
  unfold handleSyscall
  cases regs with
  | none => exact ⟨_, _, rfl⟩
  | some regs =>
    simp only
    split_ifs
    . apply hwait
    . apply hwake
    . apply hwait
    . exact ⟨_, _, rfl⟩
    . exact ⟨_, _, rfl⟩

theorem handleSyscall_monitoringActive (env : Env) (tid : Pid) (regs : Option Regs) (s : GlobalState) :
    (handleSyscall env tid regs s).monitoringActive = s.monitoringActive := by
  obtain ⟨tracker, cache, heq⟩ := handleSyscall_frame env tid regs s
  rw [heq]

def PassEnv.setResolve (pass : PassEnv) (resolve : ThreadName → ResolveEnv) : PassEnv :=
  { pass with resolve := resolve }

def EventEnv.setResolve (event : EventEnv) (resolve : ThreadName → ResolveEnv) : EventEnv :=
  { event with pass := event.pass.setResolve resolve }

namespace World

variable {w : World} {event : EventEnv} {tid : Pid}

def afterSyscall (event : EventEnv) (tid : Pid) (w : World) : World :=
  let globals := handleSyscall event.call tid event.regs w.toGlobalState
  { w with toGlobalState := { globals with toTracker := event.rehash globals.toTracker } }

def setRecorded (w : World) (recorded : List DeadlockInfo) : World :=
  { w with detectedDeadlocks := recorded }

/--
The detection is on after the event, whatever has been recorded before and however the resolvers of deadlocks
of threads end.
-/
def StaysActive (w : World) (event : EventEnv) (tid : Pid) : Prop :=
  ∀ recorded resolve w', (w.setRecorded recorded).handleEvent (event.setResolve resolve) tid = .returned w' →
    w'.monitoringActive = true

theorem afterSyscall_setRecorded (event : EventEnv) (tid : Pid) (w : World)
    (recorded : List DeadlockInfo) :
    (w.setRecorded recorded).afterSyscall event tid = (w.afterSyscall event tid).setRecorded recorded := by
  have h := handleSyscall_setRecorded event.call tid event.regs w.toGlobalState recorded
  unfold afterSyscall setRecorded
  simp only [h]

theorem handleEvent_of_alive (halive : event.tidAlive = true) (recorded : List DeadlockInfo)
    (resolve : ThreadName → ResolveEnv) :
    (w.setRecorded recorded).handleEvent (event.setResolve resolve) tid
      =
    match ((w.afterSyscall event tid).setRecorded recorded).detectAndResolveDeadlocks
        (event.pass.setResolve resolve) with
    | .thrown _ w' => .returned w'
    | outcome => outcome := by
  rw [← afterSyscall_setRecorded]
  unfold handleEvent EventEnv.setResolve
  simp only [halive, Bool.not_true, Bool.false_eq_true, ↓reduceIte]
  rfl

theorem detectAndResolveDeadlocks_of_none (env : PassEnv) (hactive : w.monitoringActive = true)
    (hgroups : detectGroupDeadlock env.orders w.toTracker = .ok {}) :
    w.detectAndResolveDeadlocks env = w.scanThreads env.resolve := by
  simp only [detectAndResolveDeadlocks, hactive, hgroups]
  rfl

theorem detectAndResolveDeadlocks_of_group (env : PassEnv) (hactive : w.monitoringActive = true)
    {groupDeadlock : GroupDeadlockInfo}
    (hgroups : detectGroupDeadlock env.orders w.toTracker = .ok groupDeadlock)
    (hlength : 2 ≤ groupDeadlock.groupCycle.length) :
    ∃ w', w.detectAndResolveDeadlocks env = .returned w' ∧ w'.monitoringActive = false := by
  refine ⟨(World.resolveGroupDeadlock env.orders env.group groupDeadlock
    { w with deadlockCounter := w.deadlockCounter + 1 }).2, ?_, rfl⟩
  simp only [detectAndResolveDeadlocks, hactive, hgroups, if_pos hlength]
  rfl

theorem detectAndResolveDeadlocks_of_error (env : PassEnv) (hactive : w.monitoringActive = true) {e : Exn}
    (hgroups : detectGroupDeadlock env.orders w.toTracker = .error e) :
    w.detectAndResolveDeadlocks env = .thrown e w := by
  simp only [detectAndResolveDeadlocks, hactive, hgroups]
  rfl

theorem scanThreads_eq_returned {env : ThreadName → ResolveEnv} {w' : World} :
    w.scanThreads env = .returned w'
      ↔
    ∃ st, ScanState.loop env w.waitsFor.keys ⟨w, ∅, ∅⟩ = .returned st ∧ st.world = w' := by
  unfold scanThreads
  cases ScanState.loop env w.waitsFor.keys ⟨w, ∅, ∅⟩ <;> simp

theorem scanThreads_eq_thrown {env : ThreadName → ResolveEnv} {w' : World} {e : Exn} :
    w.scanThreads env = .thrown e w'
      ↔
    ∃ st, ScanState.loop env w.waitsFor.keys ⟨w, ∅, ∅⟩ = .thrown e st ∧ st.world = w' := by
  unfold scanThreads
  cases ScanState.loop env w.waitsFor.keys ⟨w, ∅, ∅⟩ <;> simp

theorem active_of_scanThreads (hactive : w.monitoringActive = true)
    (hparses : ∀ t, ReachesCycle w.Waits t → Parses t) (env : ThreadName → ResolveEnv) :
    (∀ w', w.scanThreads env = .returned w' → w'.monitoringActive = true) ∧
      ∀ e w', w.scanThreads env ≠ .thrown e w' := by
  obtain ⟨hreturned, hthrown⟩ := ScanState.active_of_loop env w.waitsFor.keys
    hparses (ScanState.within_init w) hactive
  constructor
  . intro w' hw'
    obtain ⟨st, hloop, rfl⟩ := scanThreads_eq_returned.mp hw'
    exact hreturned st hloop
  . intro e w' hw'
    obtain ⟨st, hloop, -⟩ := scanThreads_eq_thrown.mp hw'
    exact hthrown e st hloop

theorem monitoringActive_afterSyscall (hactive : w.monitoringActive = true) (event : EventEnv) (tid : Pid)
    (recorded : List DeadlockInfo) :
    ((w.afterSyscall event tid).setRecorded recorded).monitoringActive = true :=
  (handleSyscall_monitoringActive event.call tid event.regs w.toGlobalState).trans hactive

theorem StaysActive.pass (h : w.StaysActive event tid) (hactive : w.monitoringActive = true)
    (halive : event.tidAlive = true) :
    (∃ e, detectGroupDeadlock event.pass.orders (w.afterSyscall event tid).toTracker = .error e) ∨
    ((¬∃ cyc, IsCycle (GroupWaits (w.afterSyscall event tid).toTracker) cyc) ∧
      ∀ t, ReachesCycle (w.afterSyscall event tid).Waits t → Parses t) := by
  have hpass := monitoringActive_afterSyscall hactive event tid []
  rcases detectGroupDeadlock_cases event.pass.orders (w.afterSyscall event tid).toTracker with
    ⟨hno, hnone⟩ | ⟨-, herr | ⟨groupDeadlock, hgroups, hlength⟩⟩
  . refine .inr ⟨hno, fun t ht => ?_⟩
    refine ScanState.parses_of_loop (w := (w.afterSyscall event tid).setRecorded []) rfl ?_ ht
    intro e st hloop
    apply h [] ScanState.deadEnv
    have hscan := detectAndResolveDeadlocks_of_none (event.pass.setResolve ScanState.deadEnv) hpass hnone
    rw [handleEvent_of_alive halive, hscan]
    unfold PassEnv.setResolve
    rw [scanThreads_eq_thrown.mpr ⟨st, hloop, rfl⟩]
  . exact .inl herr
  . exfalso
    obtain ⟨w', hreturned, hoff⟩ := detectAndResolveDeadlocks_of_group
      (event.pass.setResolve ScanState.deadEnv) hpass hgroups hlength
    have hon := h [] ScanState.deadEnv w' (by rw [handleEvent_of_alive halive, hreturned])
    rw [hon] at hoff
    simp at hoff

theorem staysActive_of_pass (hactive : w.monitoringActive = true) (halive : event.tidAlive = true)
    (hno : ¬∃ cyc, IsCycle (GroupWaits (w.afterSyscall event tid).toTracker) cyc)
    (hparses : ∀ t, ReachesCycle (w.afterSyscall event tid).Waits t → Parses t) :
    w.StaysActive event tid := by
  intro recorded resolve w' hw'
  have hpass := monitoringActive_afterSyscall hactive event tid recorded
  rw [handleEvent_of_alive halive] at hw'
  rcases detectGroupDeadlock_cases event.pass.orders (w.afterSyscall event tid).toTracker with
    ⟨-, hnone⟩ | ⟨hcyc, -⟩
  . rw [detectAndResolveDeadlocks_of_none (event.pass.setResolve resolve) hpass hnone] at hw'
    obtain ⟨hreturned, hthrown⟩ := active_of_scanThreads hpass hparses resolve
    split at hw'
    . next e w'' heq => exact absurd heq (hthrown e w'')
    . exact hreturned w' hw'
  . exact absurd hcyc hno

theorem staysActive_of_error (hactive : w.monitoringActive = true) (halive : event.tidAlive = true)
    {e : Exn} (herr : detectGroupDeadlock event.pass.orders (w.afterSyscall event tid).toTracker = .error e) :
    w.StaysActive event tid := by
  intro recorded resolve w' hw'
  have hpass := monitoringActive_afterSyscall hactive event tid recorded
  rw [handleEvent_of_alive halive,
    detectAndResolveDeadlocks_of_error (event.pass.setResolve resolve) hpass herr] at hw'
  simp only [Outcome.returned.injEq] at hw'
  rw [← hw']
  exact hpass

theorem staysActive_of_dead (hactive : w.monitoringActive = true) (hdead : event.tidAlive = false) :
    w.StaysActive event tid := by
  intro recorded resolve w' hw'
  unfold handleEvent EventEnv.setResolve at hw'
  simp only [hdead, Bool.not_false, ↓reduceIte, Outcome.returned.injEq] at hw'
  rw [← hw']
  exact hactive

/--
The detection stays on exactly if the event is dropped, or the detection of groups throws, or there is no
directed cycle of groups and all threads that reach a directed cycle have identifiers that parse.
-/
theorem staysActive_iff (w : World) (hactive : w.monitoringActive = true) (event : EventEnv) (tid : Pid) :
    w.StaysActive event tid
      ↔
    (event.tidAlive = true →
      (∃ e, detectGroupDeadlock event.pass.orders (w.afterSyscall event tid).toTracker = .error e) ∨
      ((¬∃ cyc, IsCycle (GroupWaits (w.afterSyscall event tid).toTracker) cyc) ∧
        ∀ t, ReachesCycle (w.afterSyscall event tid).Waits t → Parses t)) := by
  constructor
  . exact fun h halive => h.pass hactive halive
  . intro h
    cases halive : event.tidAlive with
    | false => exact staysActive_of_dead hactive halive
    | true =>
      rcases h halive with ⟨e, herr⟩ | ⟨hno, hparses⟩
      . exact staysActive_of_error hactive halive herr
      . exact staysActive_of_pass hactive halive hno hparses

section cross

def crossEvent : EventEnv where
  tidAlive := true
  regs := some ⟨sysFutex, 0x10010, 0⟩
  call := .bare
  rehash := id
  rehash_same := Tracker.Same.refl
  pass := {
    orders := ⟨default, default, default⟩
    group := ⟨true, fun _ => .ok 4⟩
    resolve := ScanState.deadEnv }

def crossWorld : World where
  toGlobalState := GlobalState.run
    [⟨.wake, 1, 0x10000, .bare⟩, ⟨.wake, 2, 0x10010, .bare⟩, ⟨.wait, 2, 0x10000, .bare⟩]
  memory _ := 1

/-- After the deadlock of the two threads no other deadlock is looked for. -/
theorem exists_switchedOff :
    ¬∀ (w : World) (event : EventEnv) (tid : Pid) (w' : World), w.monitoringActive = true →
      w.handleEvent event tid = .returned w' → w'.monitoringActive = true := by
  intro h
  have hon := h crossWorld crossEvent 1 _ rfl rfl
  exact absurd hon (by decide)

theorem staysActive_iff_cross :
    crossWorld.StaysActive crossEvent 1
      ↔
    (crossEvent.tidAlive = true →
      (∃ e, detectGroupDeadlock crossEvent.pass.orders (crossWorld.afterSyscall crossEvent 1).toTracker
        = .error e) ∨
      ((¬∃ cyc, IsCycle (GroupWaits (crossWorld.afterSyscall crossEvent 1).toTracker) cyc) ∧
        ∀ t, ReachesCycle (crossWorld.afterSyscall crossEvent 1).Waits t → Parses t)) :=
  staysActive_iff crossWorld rfl crossEvent 1

end cross

end World

end DeadlockInterceptor
