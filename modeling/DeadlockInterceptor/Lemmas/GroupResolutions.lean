import DeadlockInterceptor.Lemmas.GroupReports
import Mathlib.Data.Finset.Preimage

/-!
This module contains whether the forced resolution of a deadlock of groups is for a deadlock at all, and
whether it unlocks what the threads of the deadlock hold. Both come down to which threads have a lock in
common in `thread_locks`.
-/

open Relation DirectedGraph

namespace DeadlockInterceptor

theorem Tracker.Same.waits_eq {s s' : Tracker} (h : s.Same s') : s'.Waits = s.Waits := h.waitsFor.edge_eq

theorem Tracker.Same.shares_iff {s s' : Tracker} (h : s.Same s') (t u : ThreadName) :
    Shares s' t u ↔ Shares s t u := by
  simp only [Shares, h.held]

section orders

variable {s : Tracker} {c : ThreadName}

def Tracker.holderFirst (s : Tracker) (c : ThreadName) : Tracker :=
  { s with threadLocks := s.threadLocks.insert c (s.threadLocks.getD c ∅) }

theorem Tracker.same_holderFirst (hc : c ∈ s.threadLocks) : s.Same (s.holderFirst c) where
  futexWaiters _ := rfl
  waitStartTimes := rfl
  waitsFor := .refl _
  mem_threadLocks t := by
    rw [holderFirst, AList.mem_insert]
    constructor
    . rintro (rfl | ht)
      . exact hc
      . exact ht
    . exact .inr
  held t a := by
    rw [holderFirst, Held, AList.getD_insert]
    split
    . next ht => rw [ht, Held]
    . rfl
  owner _ := rfl
  lockStats := rfl

theorem Tracker.entries_holderFirst (s : Tracker) (c : ThreadName) :
    ∃ locks rest, (s.holderFirst c).threadLocks.entries = ⟨c, locks⟩ :: rest :=
  ⟨_, _, rfl⟩

theorem findGroup_holderFirst_eq_zero_iff (hc : c ∈ s.threadLocks) (t : ThreadName) :
    findGroup (analyzeConflictGroups (s.holderFirst c)) t = some 0 ↔ t = c ∨ Shares s c t := by
  obtain ⟨locks, rest, hentries⟩ := s.entries_holderFirst c
  rw [findGroup_analyze, Grouping.lookup_eq_zero_iff hentries, (Tracker.same_holderFirst hc).shares_iff]

theorem findGroup_holderFirst_ne {t u : ThreadName} (hc : c ∈ s.threadLocks) (hct : c ≠ t) (hcu : c ≠ u)
    (hiff : ¬(Shares s c t ↔ Shares s c u)) :
    findGroup (analyzeConflictGroups (s.holderFirst c)) t
      ≠ findGroup (analyzeConflictGroups (s.holderFirst c)) u := by
  intro heq
  apply hiff
  have ht := findGroup_holderFirst_eq_zero_iff hc t
  have hu := findGroup_holderFirst_eq_zero_iff hc u
  rw [heq] at ht
  rw [ht] at hu
  simpa [Ne.symm hct, Ne.symm hcu] using hu

end orders

section detour

variable {p x q : ThreadName}

def WaitsFor.detour (p x q : ThreadName) : WaitsFor :=
  (AList.insert p (USet.insert ∅ x) ∅).insert x (USet.insert ∅ q)

theorem WaitsFor.detour_edge_iff (hpx : p ≠ x) (t u : ThreadName) :
    (detour p x q).Edge t u ↔ (t = p ∧ u = x) ∨ (t = x ∧ u = q) := by
  rw [Edge, detour, AList.getD_insert, AList.getD_insert]
  split
  . next ht =>
    subst ht
    simp [Ne.symm hpx]
  . next ht =>
    split
    . next ht' => simp [ht', hpx]
    . next ht' =>
      apply iff_of_false
      . exact USet.notMem_empty u
      . simp [ht, ht']

theorem WaitsFor.detour_acyclic (hpx : p ≠ x) (hpq : p ≠ q) (hxq : x ≠ q) (cyc : List ThreadName) :
    ¬IsCycle (detour p x q).Edge cyc := by
  intro hcyc
  have hlast : q ∉ cyc := by
    intro hq
    obtain ⟨y, hy, -⟩ := hcyc.exists_succ hq
    rw [detour_edge_iff hpx] at hy
    rcases hy with ⟨heq, -⟩ | ⟨heq, -⟩
    . exact hpq heq.symm
    . exact hxq heq.symm
  have hmid : x ∉ cyc := by
    intro hx
    obtain ⟨y, hy, hmem⟩ := hcyc.exists_succ hx
    rw [detour_edge_iff hpx] at hy
    rcases hy with ⟨heq, -⟩ | ⟨-, rfl⟩
    . exact hpx heq.symm
    . exact hlast hmem
  obtain ⟨y, hy, hmem⟩ := hcyc.exists_succ (List.head_mem hcyc.ne_nil)
  rw [detour_edge_iff hpx] at hy
  rcases hy with ⟨-, rfl⟩ | ⟨-, rfl⟩
  . exact hmid hmem
  . exact hlast hmem

variable {s : Tracker}

/--
The only waits are `p → x → q` where `x` holds no lock and `p` and `q` are in one group, so that the group
and the one of `x` wait for each other.
-/
structure Detour (s : Tracker) (p x q : ThreadName) (i k : Nat) : Prop where
  ne : p ≠ x
  waits : ∀ t u, s.Waits t u ↔ (t = p ∧ u = x) ∨ (t = x ∧ u = q)
  not_held : ∀ a, ¬s.Held x a
  group_p : findGroup (analyzeConflictGroups s) p = some i
  group_q : findGroup (analyzeConflictGroups s) q = some i
  group_x : findGroup (analyzeConflictGroups s) x = some k

theorem Detour.eq_of_group {i k : Nat} (h : Detour s p x q i k) {t : ThreadName}
    (ht : findGroup (analyzeConflictGroups s) t = some k) : t = x := by
  rw [findGroup_analyze] at ht
  have hx := h.group_x
  rw [findGroup_analyze] at hx
  exact Grouping.eq_of_lookup_eq_of_not_held h.not_held hx ht

theorem Detour.groups_ne {i k : Nat} (h : Detour s p x q i k) : i ≠ k := by
  rintro rfl
  exact h.ne (h.eq_of_group h.group_p)

theorem Detour.groupWaits_iff {i k : Nat} (h : Detour s p x q i k) (m n : Nat) :
    GroupWaits s m n ↔ (m = i ∧ n = k) ∨ (m = k ∧ n = i) := by
  constructor
  . rintro ⟨-, t, u, htu, ht, hu⟩
    rcases (h.waits t u).mp htu with ⟨rfl, rfl⟩ | ⟨rfl, rfl⟩
    . rw [h.group_p] at ht
      rw [h.group_x] at hu
      exact .inl ⟨(Option.some.inj ht).symm, (Option.some.inj hu).symm⟩
    . rw [h.group_x] at ht
      rw [h.group_q] at hu
      exact .inr ⟨(Option.some.inj ht).symm, (Option.some.inj hu).symm⟩
  . rintro (⟨rfl, rfl⟩ | ⟨rfl, rfl⟩)
    . exact ⟨h.groups_ne, p, x, (h.waits p x).mpr (.inl ⟨rfl, rfl⟩), h.group_p, h.group_x⟩
    . exact ⟨h.groups_ne.symm, x, q, (h.waits x q).mpr (.inr ⟨rfl, rfl⟩), h.group_x, h.group_q⟩

theorem Detour.transGen {i k : Nat} (h : Detour s p x q i k) : TransGen (GroupWaits s) i i :=
  .tail (.single ((h.groupWaits_iff i k).mpr (.inl ⟨rfl, rfl⟩)))
    ((h.groupWaits_iff k i).mpr (.inr ⟨rfl, rfl⟩))

theorem Detour.mem_of_isCycle {i k : Nat} (h : Detour s p x q i k) {cyc : List Nat}
    (hcyc : IsCycle (GroupWaits s) cyc) : i ∈ cyc ∧ ∀ m ∈ cyc, m = i ∨ m = k := by
  have hmem : ∀ m ∈ cyc, m = i ∨ m = k := by
    intro m hm
    obtain ⟨n, hmn, -⟩ := hcyc.exists_succ hm
    rcases (h.groupWaits_iff m n).mp hmn with ⟨rfl, -⟩ | ⟨rfl, -⟩
    . exact .inl rfl
    . exact .inr rfl
  refine ⟨?_, hmem⟩
  have hhead := List.head_mem hcyc.ne_nil
  rcases hmem _ hhead with heq | heq
  . rwa [← heq]
  . obtain ⟨n, hn, hnmem⟩ := hcyc.exists_succ hhead
    rw [heq, h.groupWaits_iff] at hn
    rcases hn with ⟨hki, -⟩ | ⟨-, rfl⟩
    . exact absurd hki.symm h.groups_ne
    . exact hnmem

theorem exists_detour (hx : ∀ a, ¬s.Held x a) (hpx : p ≠ x)
    (hw : s.waitsFor = .detour p x q)
    (hpq : findGroup (analyzeConflictGroups s) p = findGroup (analyzeConflictGroups s) q) :
    ∃ i k, Detour s p x q i k := by
  have hwaits : ∀ t u, s.Waits t u ↔ (t = p ∧ u = x) ∨ (t = x ∧ u = q) := by
    intro t u
    rw [← WaitsFor.detour_edge_iff hpx, ← hw]
    rfl
  have hfind : ∀ t u, s.Waits t u → ∃ i, findGroup (analyzeConflictGroups s) t = some i :=
    fun t u htu => exists_findGroup_of_mem_waitsFor (WaitsFor.Edge.mem htu)
  obtain ⟨i, hi⟩ := hfind p x ((hwaits p x).mpr (.inl ⟨rfl, rfl⟩))
  obtain ⟨k, hk⟩ := hfind x q ((hwaits x q).mpr (.inr ⟨rfl, rfl⟩))
  exact ⟨i, k, hpx, hwaits, hx, hi, hpq ▸ hi, hk⟩

theorem Detour.exists_report {i k : Nat} (h : Detour s p x q i k) (hw : s.waitsFor = .detour p x q)
    (hparses : ∀ t ∈ s.threadLocks, Parses t) (hp : p ∈ s.threadLocks) (hx : Parses x) (ho : HashOrders) :
    ∃ info, detectGroupDeadlock ho s = .ok info ∧ 2 ≤ info.groupCycle.length := by
  refine DeadlockInterceptor.exists_report ?_ ⟨i, h.transGen⟩ ho
  intro group hgroup t ht
  have hfind := findGroup_eq_some_iff.mpr ⟨group, hgroup, rfl, ht⟩
  rw [findGroup_analyze] at hfind
  rcases Grouping.mem_of_lookup hfind with hmem | hmem
  . exact hparses t hmem
  . rw [hw, WaitsFor.detour, AList.mem_insert, AList.mem_insert] at hmem
    rcases hmem with rfl | rfl | hmem
    . exact hx
    . exact hparses t hp
    . exact absurd hmem (AList.notMem_empty t)

theorem exists_fresh_parses (names : List ThreadName) : ∃ x, x ∉ names ∧ Parses x := by
  have hinj : Function.Injective fun n => List.replicate n 'x' := List.replicate_left_injective 'x'
  obtain ⟨n, hn⟩ := Infinite.exists_notMem_finset (names.toFinset.preimage _ hinj.injOn)
  refine ⟨List.replicate n 'x', ?_, 0, ?_⟩
  . intro hmem
    apply hn
    rwa [Finset.mem_preimage, List.mem_toFinset]
  . have hnone : (List.replicate n 'x').idxOf? '[' = none := by
      rw [List.idxOf?_eq_none_iff]
      simp
    rw [extractTidFromIdentifier, hnone]

/--
If `p` and `q` are in one group whatever the waits are, then a detour between them by a thread without locks is
reported.
-/
theorem exists_reported_detour {c : ThreadName} (hparses : ∀ t ∈ s.threadLocks, Parses t)
    (hc : c ∈ s.threadLocks) (hp : p ∈ s.threadLocks)
    (hpq : ∀ waitsFor,
      findGroup (analyzeConflictGroups (({ s with waitsFor := waitsFor } : Tracker).holderFirst c)) p
        = findGroup (analyzeConflictGroups (({ s with waitsFor := waitsFor } : Tracker).holderFirst c)) q) :
    ∃ x i k info, x ∉ s.threadLocks ∧
      Detour (({ s with waitsFor := .detour p x q } : Tracker).holderFirst c) p x q i k ∧
      detectGroupDeadlock ⟨default, default, default⟩
        (({ s with waitsFor := .detour p x q } : Tracker).holderFirst c) = .ok info ∧
      2 ≤ info.groupCycle.length := by
  obtain ⟨x, hx, hxparses⟩ := exists_fresh_parses s.threadLocks.keys
  rw [← AList.mem_keys] at hx
  have hpx : p ≠ x := fun heq => hx (heq ▸ hp)
  let s1 : Tracker := { s with waitsFor := .detour p x q }
  have hsame : s1.Same (s1.holderFirst c) := Tracker.same_holderFirst hc
  have hnot : ∀ a, ¬(s1.holderFirst c).Held x a := by
    intro a hheld
    exact hx ((hsame.held x a).mp hheld).mem
  obtain ⟨i, k, hdetour⟩ := exists_detour hnot hpx rfl (hpq _)
  obtain ⟨info, hinfo, hlength⟩ := hdetour.exists_report rfl
    (fun y hy => hparses y ((hsame.mem_threadLocks y).mp hy)) ((hsame.mem_threadLocks p).mpr hp) hxparses
    ⟨default, default, default⟩
  exact ⟨x, i, k, info, hx, hdetour, hinfo, hlength⟩

end detour

section reports

variable {s : Tracker}

def GroupReportsReal (s : Tracker) : Prop :=
  ∀ s', s.Same s' → ∀ ho info, detectGroupDeadlock ho s' = .ok info →
    2 ≤ info.groupCycle.length → ∃ cyc, IsCycle s.Waits cyc

theorem groupReportsReal_of_shares (h : ∀ t u, Shares s t u → t = u) : GroupReportsReal s := by
  intro s' hsame ho info hinfo hlength
  rw [← hsame.waits_eq]
  have hcyc := (detectGroupDeadlock_spec hinfo hlength).1
  refine exists_isCycle_of_quotient (f := findGroup (analyzeConflictGroups s')) ?_ ?_ hcyc
  . rintro i j ⟨-, t, u, htu, ht, hu⟩
    exact ⟨t, u, htu, ht, hu⟩
  . intro t u i ht hu
    rw [findGroup_analyze] at ht hu
    apply Grouping.eq_of_lookup_eq_of_shares _ ht hu
    intro t u htu
    exact h t u ((hsame.shares_iff t u).mp htu)

/--
The holders of one lock are one group if one of them is visited first. So the wait of one for a third thread
that waits for the other is reported, although nobody waits for the former.
-/
theorem eq_of_groupReportsReal (hparses : ∀ t ∈ s.threadLocks, Parses t)
    (h : ∀ waitsFor, GroupReportsReal { s with waitsFor := waitsFor }) {t u : ThreadName}
    (htu : Shares s t u) : t = u := by
  by_contra hne
  obtain ⟨a, ht, hu⟩ := htu
  obtain ⟨x, i, k, info, hx, hdetour, hinfo, hlength⟩ :=
    exists_reported_detour (p := t) (q := u) hparses ht.mem ht.mem (by
      intro waitsFor
      let s1 : Tracker := { s with waitsFor := waitsFor }
      have ht1 : t ∈ s1.threadLocks := ht.mem
      rw [(findGroup_holderFirst_eq_zero_iff ht1 t).mpr (.inl rfl),
        (findGroup_holderFirst_eq_zero_iff ht1 u).mpr (.inr ⟨a, ht, hu⟩)])
  have hux : x ≠ u := fun heq => hx (heq ▸ hu.mem)
  obtain ⟨cyc, hcyc⟩ := h (.detour t x u) _ (Tracker.same_holderFirst ht.mem) _ info hinfo hlength
  exact WaitsFor.detour_acyclic hdetour.ne hne hux cyc hcyc

theorem groupReportsReal_iff (hparses : ∀ t ∈ s.threadLocks, Parses t) :
    (∀ waitsFor, GroupReportsReal { s with waitsFor := waitsFor }) ↔ ∀ t u, Shares s t u → t = u := by
  constructor
  . intro h t u htu
    exact eq_of_groupReportsReal hparses h htu
  . intro h waitsFor
    exact groupReportsReal_of_shares h

end reports

namespace GlobalState

theorem ownersAgree_iff_shares {s : GlobalState} (hown : OwnersHold s.toTracker) :
    s.OwnersAgree ↔ ∀ t u, Shares s.toTracker t u → t = u := by
  constructor
  . rintro h t u ⟨a, ht, hu⟩
    rw [h] at ht hu
    rw [ht] at hu
    exact Option.some.inj hu
  . intro h t a
    constructor
    . intro ht
      obtain ⟨u, hu⟩ := hown.owner_of_held t a ht
      rw [hu, h t u ⟨a, ht, hown.held_of_owner u a hu⟩]
    . exact hown.held_of_owner t a

/--
As long as no lock changes hands, a deadlock of groups is one of threads, in every state of the run and every
order. And whether the reports can be trusted for whatever waits there are depends on nothing else than that
no lock is in the sets of two threads.
-/
theorem groupReportsReal_run_iff (evs : List Event) :
    (Run.Steps step KeepsOwner init evs →
      Run.States step (fun s => GroupReportsReal s.toTracker) init evs) ∧
    ((∀ t ∈ (run evs).threadLocks, Parses t) →
      ((∀ waitsFor, GroupReportsReal { (run evs).toTracker with waitsFor := waitsFor })
        ↔
        (run evs).OwnersAgree)) := by
  constructor
  . intro hsteps
    have hagree := (ownersAgree_run_iff evs).mpr hsteps
    apply hagree.imp
    intro s hs
    apply groupReportsReal_of_shares
    rintro t u ⟨a, ht, hu⟩
    rw [hs] at ht hu
    rw [ht] at hu
    exact Option.some.inj hu
  . intro hparses
    rw [groupReportsReal_iff hparses, ownersAgree_iff_shares (ownersHold_run evs)]

/-- The lock of 1 and 2 and the one of 3 and 4 make two groups, but 1 waits for 3 and 4 for 2. -/
def crossedRun : List Event :=
  [⟨.wake, 1, 0x10000, .bare⟩, ⟨.wake, 2, 0x10000, .bare⟩, ⟨.wake, 4, 0x10010, .bare⟩,
    ⟨.wake, 3, 0x10010, .bare⟩, ⟨.wait, 1, 0x10010, .bare⟩, ⟨.wait, 4, 0x10000, .bare⟩]

theorem exists_falseGroupReport : ¬∀ evs, GroupReportsReal (run evs).toTracker := by
  intro h
  obtain ⟨cyc, hcyc⟩ := h crossedRun (run crossedRun).toTracker (.refl _) ⟨default, default, default⟩ _ rfl
    (by decide)
  refine not_isCycle_of_no_walk ?_ cyc hcyc
  intro x y z hxy hyz
  obtain ⟨entry, hentry, -, hy⟩ := WaitsFor.edge_iff.mp hxy
  have hnone : ∀ entry ∈ (run crossedRun).waitsFor.entries, ∀ y ∈ entry.2.toList,
      y ∉ (run crossedRun).waitsFor := by decide
  exact hnone entry hentry y hy (WaitsFor.Edge.mem hyz)

end GlobalState

end DeadlockInterceptor
