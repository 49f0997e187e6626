import DeadlockInterceptor.Lemmas.ScanGraph
import DeadlockInterceptor.Lemmas.WaitEdges

/-!
This module contains when the loop over the wait-for graph erases the entry it stands on. The vector of a
search starts with that entry, and the resolvers take the first live thread of the vector.
-/

open Relation DirectedGraph

namespace DeadlockInterceptor

structure World.SameThreads (w w' : World) : Prop where
  waitsFor : w.waitsFor.Same w'.waitsFor
  threadInfoCache : w'.threadInfoCache = w.threadInfoCache
  targetPid : w'.targetPid = w.targetPid

structure Finds (env : ThreadName → ResolveEnv) (alive : ThreadName → Pid → Bool) (proc : ProcFs) :
    Prop where
  strategy1 : ∀ r, (env r).strategy1.threadExists = alive r
  emergency : ∀ r, (env r).emergency.threadExists = alive r
  proc : ∀ r, (env r).emergency.proc = proc

/--
From `r` a live thread on a way to a directed cycle can be reached over dead threads, and this thread is `r`
itself or has the tid that the monitor knows under the name `r`.
-/
def World.ErasesRoot (w : World) (alive : Pid → Bool) (proc : ProcFs) (r : ThreadName) : Prop :=
  ∃ v tid, ReflTransGen (fun x y => Dead alive x ∧ w.Waits x y) r v ∧ ReachesCycle w.Waits v ∧
    extractTidFromIdentifier v = .ok tid ∧ alive tid = true ∧
    ((v = r ∧ tid ≠ 0) ∨ (w.toGlobalState.threadIdentifier proc tid).1 = r)

namespace ScanState

variable {env : ThreadName → ResolveEnv} {w : World} {st st' : ScanState} {r : ThreadName}
  {alive : ThreadName → Pid → Bool} {proc : ProcFs}

theorem threadIdentifier_of_loop (hproc : ∀ r, (env r).emergency.proc = proc) {keys : List ThreadName}
    (h : loop env keys ⟨w, ∅, ∅⟩ = .returned st) (tid : Pid) :
    (st.world.toGlobalState.threadIdentifier proc tid).1
      = (w.toGlobalState.threadIdentifier proc tid).1 := by
  refine loop_invariant (I := fun st => (st.world.toGlobalState.threadIdentifier proc tid).1
    = (w.toGlobalState.threadIdentifier proc tid).1) ?_ h rfl
  intro r st st' hst hturn
  rcases turn_eq_returned hturn with ⟨-, rfl⟩ | ⟨-, -, b, d, -, -, -, hworld⟩
  . exact hst
  . rw [← hst]
    rcases hworld with heq | ⟨-, res, hres⟩
    . rw [heq]
    . obtain ⟨htarget, hcases⟩ := World.resolveThreadDeadlock_cases hres
      rcases hcases with ⟨-, hcache⟩ | ⟨_, _, -, -, -, hcache⟩ | ⟨_, tid', -, -, hcache⟩
      . exact GlobalState.threadIdentifier_fst_congr htarget hcache proc tid
      . exact GlobalState.threadIdentifier_fst_congr htarget hcache proc tid
      . rw [hproc] at hcache
        have hsame := GlobalState.threadIdentifier_fst_congr
          (s := (st.world.toGlobalState.threadIdentifier proc tid').2) htarget hcache proc tid
        exact hsame.trans (GlobalState.threadIdentifier_fst_threadIdentifier _ proc tid tid')

theorem Reported.erasesRoot {v : List ThreadName} (h : Reported w r v) {alive : Pid → Bool}
    {victim : ThreadName} {tid : Pid} (hfind : findVictim alive v = .ok (some (victim, tid)))
    (hr : (victim = r ∧ tid ≠ 0) ∨ (w.toGlobalState.threadIdentifier proc tid).1 = r) :
    w.ErasesRoot alive proc r := by
  rcases findVictim_cases alive v with
    ⟨pre, x, post, tid', rfl, hpre, htid, hlive, heq⟩ | ⟨_, -, e, -, heq⟩ | ⟨-, heq⟩
  . rw [hfind] at heq
    simp only [Except.ok.injEq, Option.some.injEq, Prod.mk.injEq] at heq
    obtain ⟨rfl, rfl⟩ := heq
    refine ⟨victim, tid, ?_, h.reaches victim (by simp), htid, hlive, hr⟩
    have hwalk := h.walk
    have hhead := h.head
    rw [List.append_cons] at hwalk hhead
    apply reach_of_head (isChain_and_iff.mpr ⟨hpre, hwalk.left_of_append⟩)
    . rw [List.head?_append] at hhead
      rw [← hhead]
      cases pre <;> rfl
    . simp
  . rw [hfind] at heq
    simp at heq
  . rw [hfind] at heq
    simp at heq

theorem exists_erasesRoot_of_undefined (henv : Finds env alive proc)
    (h : w.scanThreads env = .undefined) : ∃ r ∈ w.waitsFor, w.ErasesRoot (alive r) proc r := by
  have hloop : loop env w.waitsFor.keys ⟨w, ∅, ∅⟩ = .undefined := by
    unfold World.scanThreads at h
    split at h
    . simp at h
    . simp at h
    . next heq => exact heq
  obtain ⟨pre, r, post, st, -, hpre, hturn⟩ := exists_turn_of_loop_undefined hloop
  have hst := within_of_loop hpre
  obtain ⟨hmem, hvis, d, res, w', hd, hres, herased⟩ := turn_eq_undefined hturn
  refine ⟨r, hst.mem r hmem, ?_⟩
  have hreported := (hst.reported hvis hd).1
  -- the resolution has erased the entry of `r`
  have herased' : ∀ x, w'.waitsFor = st.world.waitsFor.erase x → x = r := by
    intro x heq
    rw [heq, AList.mem_erase] at herased
    by_contra hne
    exact herased ⟨Ne.symm hne, hmem⟩
  rcases (World.resolveThreadDeadlock_cases hres).2 with
    ⟨heq, -⟩ | ⟨victim, tid, hfind, htid, heq, -⟩ | ⟨victim, tid, hfind, heq, -⟩
  . rw [heq] at herased
    exact absurd hmem herased
  . rw [henv.strategy1] at hfind
    exact hreported.erasesRoot hfind (.inl ⟨herased' victim heq, htid⟩)
  . rw [henv.emergency] at hfind
    rw [henv.proc, threadIdentifier_of_loop henv.proc hpre] at heq
    exact hreported.erasesRoot hfind (.inr (herased' _ heq))

/--
A lasso over `v` is searched first, and `v` is killed for it by strategy 1 or, if there is no shadow process,
by force.
-/
theorem exists_undefined_of_erasesRoot (h : w.ErasesRoot (alive r) proc r) :
    ∃ w' env, w.SameThreads w' ∧ Finds env alive proc ∧ w'.scanThreads env = .undefined := by
  obtain ⟨v, tid, hreach, hcycle, htid, hlive, hr⟩ := h
  obtain ⟨p, x, hway, hpnodup, hhead, rfl, -⟩ := exists_walk_to_first (C := (· = v)) hreach rfl
  obtain ⟨hdead, hwalk⟩ := isChain_and_iff.mp hway
  obtain ⟨e, y, hlasso, -, -⟩ := exists_isLasso_of_forall_exists (r := w.Waits)
    (Q := ReachesCycle w.Waits) w.waitsFor.keys.toFinset (by
      intro a ha
      obtain ⟨b, hab, -⟩ := reachesCycle_iff.mp ha
      exact List.mem_toFinset.mpr (AList.mem_keys.mp (WaitsFor.Edge.mem (w := w.waitsFor) hab)))
    (fun a ha => reachesCycle_iff.mp ha) hwalk hpnodup hcycle
  obtain ⟨q, hq⟩ : ∃ q, p ++ [x] ++ e = r :: q := by
    apply List.head?_eq_some_iff.mp
    rw [List.head?_append, hhead]
    rfl
  have hfind : findVictim (alive r) (r :: q ++ [y]) = .ok (some (x, tid)) := by
    rw [← hq, List.append_assoc, ← List.append_cons]
    exact findVictim_eq_some hdead htid hlive
  rw [hq] at hlasso
  obtain ⟨hsame, hd, hkeys⟩ := dfsDeadlock.of_isLasso hlasso
  have hmem : r ∈ w.waitsFor.steer (r :: q ++ [y]) := by
    rw [AList.mem_keys, hkeys]
    exact List.mem_cons_self
  -- the vector is new, so it is resolved right away
  let w' : World := { w with
    waitsFor := w.waitsFor.steer (r :: q ++ [y])
    detectedDeadlocks := [] }
  have hundef : ∀ env : ThreadName → ResolveEnv, ∀ w'' : World,
      w'.resolveThreadDeadlock (env r) (r :: q ++ [y]) = (.ok (), w'') →
        w''.waitsFor = w'.waitsFor.erase r → w'.scanThreads env = .undefined := by
    intro env w'' hres herased
    have hturn := turn_of_new (env r) ⟨w', ∅, ∅⟩ hmem (Finset.notMem_empty r) hd
      (by simp) (fun existing hin => absurd hin List.not_mem_nil)
    have hvector : (y :: (r :: q).reverse).reverse = r :: q ++ [y] := by simp
    simp only [hvector, hres] at hturn
    rw [if_pos (by rw [herased, AList.mem_erase]; simp)] at hturn
    have hkeys' : w'.waitsFor.keys = _ := hkeys
    rw [World.scanThreads, hkeys', loop, hturn]
  rcases hr with ⟨rfl, hne⟩ | hident
  . let run : ShadowRun := ⟨⟨fun _ => .error 3, 0⟩, none, some (.exited 0)⟩
    let env : ThreadName → ResolveEnv := fun r => ⟨⟨alive r, some run⟩, ⟨alive r, proc⟩⟩
    obtain ⟨w'', hres, herased⟩ := World.resolveThreadDeadlock_of_shadow (env x) w'
      hfind hne rfl rfl
    exact ⟨w', env, ⟨hsame, rfl, rfl⟩, ⟨fun _ => rfl, fun _ => rfl, fun _ => rfl⟩,
      hundef env w'' hres herased⟩
  . let env : ThreadName → ResolveEnv := fun r => ⟨⟨alive r, none⟩, ⟨alive r, proc⟩⟩
    obtain ⟨w'', hres, herased⟩ := World.resolveThreadDeadlock_of_emergency (env r) w'
      hfind hfind rfl
    refine ⟨w', env, ⟨hsame, rfl, rfl⟩, ⟨fun _ => rfl, fun _ => rfl, fun _ => rfl⟩,
      hundef env w'' hres ?_⟩
    rw [herased]
    congr 1

end ScanState

namespace World

theorem SameThreads.erasesRoot {w w' : World} (h : w.SameThreads w') {alive : Pid → Bool}
    {proc : ProcFs} {r : ThreadName} (hr : w'.ErasesRoot alive proc r) : w.ErasesRoot alive proc r := by
  have hwaits : w'.Waits = w.Waits := h.waitsFor.edge_eq
  obtain ⟨v, tid, hreach, hcycle, htid, hlive, hr⟩ := hr
  rw [hwaits] at hreach hcycle
  rw [GlobalState.threadIdentifier_fst_congr h.targetPid h.threadInfoCache] at hr
  exact ⟨v, tid, hreach, hcycle, htid, hlive, hr⟩

/--
The loop over the wait-for graph never erases the entry it stands on, in every iteration order, with every
history of recorded vectors and with every outcome of the resolvers, exactly if the first live thread on a
way to a directed cycle is never the one the way starts with.
-/
theorem scanThreads_ne_undefined_iff (w : World) (alive : ThreadName → Pid → Bool) (proc : ProcFs) :
    (∀ w' env, w.SameThreads w' → Finds env alive proc → w'.scanThreads env ≠ .undefined)
      ↔
    ∀ r ∈ w.waitsFor, ¬w.ErasesRoot (alive r) proc r := by
  constructor
  . intro h r _ hr
    obtain ⟨w', env, hsame, henv, hundef⟩ := ScanState.exists_undefined_of_erasesRoot hr
    exact h w' env hsame henv hundef
  . intro h w' env hsame henv hundef
    obtain ⟨r, hmem, hr⟩ := ScanState.exists_erasesRoot_of_undefined henv hundef
    exact h r ((hsame.waitsFor.mem r).mp hmem) (hsame.erasesRoot hr)

def liveEnv : PassEnv where
  orders := ⟨default, default, default⟩
  group := ⟨false, fun _ => .error 3⟩
  resolve _ := ⟨⟨fun _ => true, some ⟨⟨fun _ => .error 3, 0⟩, none, some (.exited 0)⟩⟩,
    ⟨fun _ => true, ⟨fun _ => none, fun _ _ => none⟩⟩⟩

theorem exists_invalidIterator :
    ¬∀ (evs : List Event) (memory : Memory) (env : PassEnv),
      (World.mk (GlobalState.run evs) memory).detectAndResolveDeadlocks env ≠ .undefined := by
  intro h
  exact h GlobalState.falseAlarm (fun _ => 0) liveEnv rfl

end World

end DeadlockInterceptor
