import DeadlockInterceptor.Lemmas.ConflictGroups

/-!
This module contains which threads end up in one group. A group is a thread together with the threads that
share a lock with it and are in no group yet, so it depends on the order in which `thread_locks` is visited.
-/

namespace DeadlockInterceptor

def Shares (s : Tracker) (t u : ThreadName) : Prop := ∃ a, s.Held t a ∧ s.Held u a

theorem Shares.symm {s : Tracker} {t u : ThreadName} (h : Shares s t u) : Shares s u t := by
  obtain ⟨a, ht, hu⟩ := h
  exact ⟨a, hu, ht⟩

theorem Tracker.Held.mem {s : Tracker} {t : ThreadName} {a : Addr} (h : s.Held t a) :
    t ∈ s.threadLocks := by
  by_contra hmem
  unfold Tracker.Held AList.getD at h
  rw [AList.lookup_eq_none.mpr hmem] at h
  exact absurd h (USet.notMem_empty a)

theorem Tracker.held_iff_of_mem {s : Tracker} {entry : Sigma fun _ : ThreadName => USet Addr}
    (h : entry ∈ s.threadLocks.entries) {a : Addr} : s.Held entry.1 a ↔ a ∈ entry.2 := by
  have hlook : s.threadLocks.lookup entry.1 = some entry.2 := AList.mem_lookup_iff.mpr h
  rw [Tracker.Held, AList.getD, hlook]
  rfl

theorem Tracker.exists_entry_of_mem {s : Tracker} {t : ThreadName} (h : t ∈ s.threadLocks) :
    ∃ entry ∈ s.threadLocks.entries, entry.1 = t := by
  obtain ⟨locks, hlocks⟩ := AList.lookup_of_mem h
  exact ⟨⟨t, locks⟩, AList.mem_lookup_iff.mp hlocks, rfl⟩

namespace Grouping

structure Opens (g g' : Grouping) (p : ThreadName → Prop) : Prop where
  fresh : ∀ t, p t → t ∉ g.visited
  lookup_new : ∀ t, p t → g'.threadToGroup.lookup t = some g.groups.length
  lookup_old : ∀ t, ¬p t → g'.threadToGroup.lookup t = g.threadToGroup.lookup t

section step

variable {g : Grouping} {c : ThreadName} {lockSet : USet Addr} {groupId : Nat}

def Joins (c : ThreadName) (lockSet : USet Addr) (g : Grouping)
    (l : List (Sigma fun _ : ThreadName => USet Addr)) (t : ThreadName) : Prop :=
  t ≠ c ∧ t ∉ g.visited ∧ ∃ other ∈ l, other.1 = t ∧ ∃ a ∈ lockSet, a ∈ other.2

theorem joinIfShares_of_joins {other : Sigma fun _ : ThreadName => USet Addr}
    (h : Joins c lockSet g [other] other.1) :
    joinIfShares c lockSet groupId g other = g.join groupId other.1 := by
  obtain ⟨hne, hvis, other', hother', -, a, ha, ha'⟩ := h
  rw [List.mem_singleton] at hother'
  subst hother'
  have hany : lockSet.toList.any (· ∈ other'.2) = true := by
    rw [List.any_eq_true]
    exact ⟨a, ha, decide_eq_true ha'⟩
  rw [joinIfShares, if_neg, if_pos hany]
  rintro (heq | hmem)
  . exact hne heq.symm
  . exact hvis hmem

theorem joinIfShares_of_not {other : Sigma fun _ : ThreadName => USet Addr}
    (h : ¬Joins c lockSet g [other] other.1) : joinIfShares c lockSet groupId g other = g := by
  unfold joinIfShares
  split
  . rfl
  . next hskip =>
    rw [not_or] at hskip
    split
    . next hany =>
      rw [List.any_eq_true] at hany
      obtain ⟨a, ha, ha'⟩ := hany
      exfalso
      apply h
      exact ⟨Ne.symm hskip.1, hskip.2, other, List.mem_singleton_self other, rfl, a, ha,
        of_decide_eq_true ha'⟩
    . rfl

theorem lookup_foldl_joinIfShares (c : ThreadName) (lockSet : USet Addr) (groupId : Nat)
    (l : List (Sigma fun _ : ThreadName => USet Addr)) (g : Grouping) (t : ThreadName) :
    (Joins c lockSet g l t →
      (l.foldl (joinIfShares c lockSet groupId) g).threadToGroup.lookup t = some groupId) ∧
    (¬Joins c lockSet g l t →
      (l.foldl (joinIfShares c lockSet groupId) g).threadToGroup.lookup t
        =
      g.threadToGroup.lookup t) := by
  induction l generalizing g with
  | nil => simp [Joins]
  | cons other l ih =>
    rw [List.foldl_cons]
    by_cases hother : Joins c lockSet g [other] other.1
    . rw [joinIfShares_of_joins hother]
      obtain ⟨ih1, ih2⟩ := ih (g.join groupId other.1)
      by_cases ht : t = other.1
      . subst ht
        have hrest : ¬Joins c lockSet (g.join groupId other.1) l other.1 :=
          fun h => h.2.1 (Finset.mem_insert_self other.1 g.visited)
        have hjoins : Joins c lockSet g (other :: l) other.1 := by
          obtain ⟨hne, hvis, other', hother', hmem⟩ := hother
          exact ⟨hne, hvis, other', List.mem_cons.mpr (.inl (List.mem_singleton.mp hother')), hmem⟩
        refine ⟨fun _ => ?_, fun h => absurd hjoins h⟩
        rw [ih2 hrest]
        exact AList.lookup_insert _
      . have hiff : Joins c lockSet g (other :: l) t ↔ Joins c lockSet (g.join groupId other.1) l t := by
          simp [Joins, Grouping.join, ht, Ne.symm ht]
        rw [hiff]
        refine ⟨ih1, fun h => ?_⟩
        rw [ih2 h]
        exact AList.lookup_insert_ne ht
    . rw [joinIfShares_of_not hother]
      have hiff : Joins c lockSet g (other :: l) t ↔ Joins c lockSet g l t := by
        constructor
        . rintro ⟨hne, hvis, other', hother', rfl, hmem⟩
          rcases List.mem_cons.mp hother' with rfl | hother'
          . exact absurd ⟨hne, hvis, other', List.mem_singleton_self other', rfl, hmem⟩ hother
          . exact ⟨hne, hvis, other', hother', rfl, hmem⟩
        . rintro ⟨hne, hvis, other', hother', hmem⟩
          exact ⟨hne, hvis, other', List.mem_cons_of_mem other hother', hmem⟩
      rw [hiff]
      exact ih g

variable {s : Tracker}

theorem lookup_create (h : g.Partition) {t : ThreadName} (ht : t ∉ g.visited) (u : ThreadName) :
    ((g.getOrCreateGroup t).2.visit t).threadToGroup.lookup u
      =
    if u = t then some g.groups.length else g.threadToGroup.lookup u := by
  rw [getOrCreateGroup_of_notMem h ht]
  exact AList.lookup_insert_eq _ _ _ _

theorem visited_create (h : g.Partition) {t : ThreadName} (ht : t ∉ g.visited) :
    ((g.getOrCreateGroup t).2.visit t).visited = insert t g.visited := by
  rw [getOrCreateGroup_of_notMem h ht]
  rfl

theorem addHolder_of_notMem (h : g.Partition) {entry : Sigma fun _ : ThreadName => USet Addr}
    (hvis : entry.1 ∉ g.visited) (threadLocks : UMap ThreadName (USet Addr)) :
    g.addHolder threadLocks entry
      =
    threadLocks.entries.foldl (joinIfShares entry.1 entry.2 g.groups.length)
      ((g.getOrCreateGroup entry.1).2.visit entry.1) := by
  rw [addHolder, if_neg hvis, getOrCreateGroup_of_notMem h hvis]

theorem joins_create_iff (h : g.Partition) {entry : Sigma fun _ : ThreadName => USet Addr}
    (hentry : entry ∈ s.threadLocks.entries) (hvis : entry.1 ∉ g.visited) {t : ThreadName}
    (ht : t ≠ entry.1) :
    Joins entry.1 entry.2 ((g.getOrCreateGroup entry.1).2.visit entry.1) s.threadLocks.entries t
      ↔
    t ∉ g.visited ∧ Shares s entry.1 t := by
  rw [Joins, visited_create h hvis, Finset.mem_insert, not_or]
  constructor
  . rintro ⟨-, ⟨-, hnew⟩, other, hother, rfl, a, ha, ha'⟩
    exact ⟨hnew, a, (Tracker.held_iff_of_mem hentry).mpr ha, (Tracker.held_iff_of_mem hother).mpr ha'⟩
  . rintro ⟨hnew, a, ha, ha'⟩
    obtain ⟨other, hother, rfl⟩ := Tracker.exists_entry_of_mem (Tracker.Held.mem ha')
    refine ⟨ht, ⟨ht, hnew⟩, other, hother, rfl, a, ?_, ?_⟩
    . exact (Tracker.held_iff_of_mem hentry).mp ha
    . exact (Tracker.held_iff_of_mem hother).mp ha'

theorem opens_addHolder (h : g.Partition) {entry : Sigma fun _ : ThreadName => USet Addr}
    (hentry : entry ∈ s.threadLocks.entries) (hvis : entry.1 ∉ g.visited) :
    g.Opens (g.addHolder s.threadLocks entry)
      fun t => t = entry.1 ∨ (t ∉ g.visited ∧ Shares s entry.1 t) := by
  rw [addHolder_of_notMem h hvis]
  have hloop := lookup_foldl_joinIfShares entry.1 entry.2 g.groups.length s.threadLocks.entries
    ((g.getOrCreateGroup entry.1).2.visit entry.1)
  simp only [lookup_create h hvis] at hloop
  refine ⟨?_, ?_, ?_⟩
  . rintro t (rfl | ⟨ht, -⟩)
    . exact hvis
    . exact ht
  . intro t hp
    by_cases ht : t = entry.1
    . rw [(hloop t).2 fun hjoins => hjoins.1 ht, if_pos ht]
    . exact (hloop t).1 ((joins_create_iff h hentry hvis ht).mpr (hp.resolve_left ht))
  . intro t hp
    rw [not_or] at hp
    rw [(hloop t).2 fun hjoins => hp.2 ((joins_create_iff h hentry hvis hp.1).mp hjoins), if_neg hp.1]

theorem opens_addWaiter (h : g.Partition) {t : ThreadName} (ht : t ∉ g.visited) :
    g.Opens (g.addWaiter t) fun u => u = t := by
  rw [addWaiter, if_pos ht]
  refine ⟨?_, ?_, ?_⟩
  . rintro u rfl
    exact ht
  . intro u hu
    rw [lookup_create h ht, if_pos hu]
  . intro u hu
    rw [lookup_create h ht, if_neg hu]

/--
A step of one of the two loops leaves the groups as they are, or opens one that is a thread with threads
that share a lock with it.
-/
theorem addHolder_cases (h : g.Partition) {entry : Sigma fun _ : ThreadName => USet Addr}
    (hentry : entry ∈ s.threadLocks.entries) :
    g.addHolder s.threadLocks entry = g ∨
      ∃ p c, g.Opens (g.addHolder s.threadLocks entry) p ∧ ∀ t, p t → t = c ∨ Shares s c t := by
  by_cases hvis : entry.1 ∈ g.visited
  . left
    rw [addHolder, if_pos hvis]
  . right
    refine ⟨_, entry.1, opens_addHolder h hentry hvis, ?_⟩
    rintro t (ht | ⟨-, ht⟩)
    . exact .inl ht
    . exact .inr ht

theorem addWaiter_cases (h : g.Partition) (s : Tracker) (t : ThreadName) :
    g.addWaiter t = g ∨
      ∃ p c, g.Opens (g.addWaiter t) p ∧ ∀ u, p u → u = c ∨ Shares s c u := by
  by_cases hvis : t ∈ g.visited
  . left
    rw [addWaiter, if_neg (not_not.mpr hvis)]
  . right
    exact ⟨_, t, opens_addWaiter h hvis, fun u hu => .inl hu⟩

end step

section loops

variable {s : Tracker} {g : Grouping}

/--
What holds before the loops over the holders `l` and over the waiters and is kept whenever a group is opened
holds of the result.
-/
theorem invariant_loops {I : Grouping → Prop}
    (hopens : ∀ g g' p c, g.Partition → g.Opens g' p → (∀ t, p t → t = c ∨ Shares s c t) → I g → I g')
    {l : List (Sigma fun _ : ThreadName => USet Addr)} (hl : ∀ entry ∈ l, entry ∈ s.threadLocks.entries)
    {g : Grouping} (hg : g.Partition) (h : I g) (waiters : List ThreadName) :
    I (waiters.foldl addWaiter (l.foldl (addHolder s.threadLocks) g)) := by
  have hholders : (l.foldl (addHolder s.threadLocks) g).Partition ∧
      I (l.foldl (addHolder s.threadLocks) g) := by
    refine Run.foldl_invariant_mem (I := fun g => g.Partition ∧ I g) ?_ ⟨hg, h⟩
    rintro g entry hentry ⟨hp, hI⟩
    refine ⟨hp.addHolder entry, ?_⟩
    rcases addHolder_cases hp (hl entry hentry) with heq | ⟨p, c, ho, hc⟩
    . rwa [heq]
    . exact hopens g _ p c hp ho hc hI
  refine (Run.foldl_invariant (I := fun g => g.Partition ∧ I g) ?_ hholders waiters).2
  rintro g t ⟨hp, hI⟩
  refine ⟨hp.addWaiter t, ?_⟩
  rcases addWaiter_cases hp s t with heq | ⟨p, c, ho, hc⟩
  . rwa [heq]
  . exact hopens g _ p c hp ho hc hI

theorem exists_center (s : Tracker) (i : Nat) :
    ∃ c, ∀ t, (groupThreads s).threadToGroup.lookup t = some i → t = c ∨ Shares s c t := by
  refine invariant_loops
    (I := fun g => ∀ i, ∃ c, ∀ t, g.threadToGroup.lookup t = some i → t = c ∨ Shares s c t)
    ?_ (fun _ h => h) partition_empty ?_ s.waitsFor.keys i
  . intro g g' p c hp ho hc h i
    by_cases hi : i = g.groups.length
    . refine ⟨c, fun t ht => ?_⟩
      by_cases hpt : p t
      . exact hc t hpt
      . rw [ho.lookup_old t hpt] at ht
        have := hp.lookup_lt t i ht
        omega
    . obtain ⟨c', hc'⟩ := h i
      refine ⟨c', fun t ht => hc' t ?_⟩
      by_cases hpt : p t
      . rw [ho.lookup_new t hpt, Option.some.injEq] at ht
        exact absurd ht.symm hi
      . rwa [ho.lookup_old t hpt] at ht
  . intro i
    refine ⟨[], fun t ht => ?_⟩
    simp [empty] at ht

theorem lookup_eq_iff_of_opened {n : Nat} {p : ThreadName → Prop} (hp : ∃ t, p t)
    {l : List (Sigma fun _ : ThreadName => USet Addr)} (hl : ∀ entry ∈ l, entry ∈ s.threadLocks.entries)
    {g : Grouping} (hg : g.Partition) (h : ∀ t, g.threadToGroup.lookup t = some n ↔ p t)
    (waiters : List ThreadName) (t : ThreadName) :
    (waiters.foldl addWaiter (l.foldl (addHolder s.threadLocks) g)).threadToGroup.lookup t = some n
      ↔
    p t := by
  obtain ⟨c, hc⟩ := hp
  refine invariant_loops (I := fun g => ∀ t, g.threadToGroup.lookup t = some n ↔ p t) ?_ hl hg h waiters t
  intro g g' p' c' hg ho _ hI t
  have hlt := hg.lookup_lt c n ((hI c).mpr hc)
  by_cases hpt : p' t
  . have hnone := hg.lookup_eq_none (ho.fresh t hpt)
    rw [← hI t, ho.lookup_new t hpt, hnone, Option.some.injEq]
    exact iff_of_false (by omega) (by simp)
  . rw [ho.lookup_old t hpt]
    exact hI t

theorem lookup_eq_iff_of_fresh {entry : Sigma fun _ : ThreadName => USet Addr}
    {before after : List (Sigma fun _ : ThreadName => USet Addr)}
    (h : s.threadLocks.entries = before ++ entry :: after)
    (hvis : entry.1 ∉ (before.foldl (addHolder s.threadLocks) empty).visited) (t : ThreadName) :
    (groupThreads s).threadToGroup.lookup t
        = some (before.foldl (addHolder s.threadLocks) empty).groups.length
      ↔
    t = entry.1 ∨
      (t ∉ (before.foldl (addHolder s.threadLocks) empty).visited ∧ Shares s entry.1 t) := by
  have hentries : ∀ entry' ∈ before ++ entry :: after, entry' ∈ s.threadLocks.entries := by
    rw [h]
    exact fun _ h => h
  have hp := partition_foldl_addHolder (s := s) before
  have ho := opens_addHolder hp (hentries entry (by simp)) hvis
  rw [groupThreads, h, List.foldl_append, List.foldl_cons]
  apply lookup_eq_iff_of_opened ⟨entry.1, .inl rfl⟩
  . exact fun entry' hentry' => hentries entry' (by simp [hentry'])
  . exact hp.addHolder entry
  . intro t
    by_cases hpt : t = entry.1 ∨
        (t ∉ (before.foldl (addHolder s.threadLocks) empty).visited ∧ Shares s entry.1 t)
    . exact iff_of_true (ho.lookup_new t hpt) hpt
    . rw [ho.lookup_old t hpt]
      refine iff_of_false (fun hlook => ?_) hpt
      exact Nat.lt_irrefl _ (hp.lookup_lt t _ hlook)

theorem lookup_eq_zero_iff {c : ThreadName} {locks : USet Addr}
    {rest : List (Sigma fun _ : ThreadName => USet Addr)} (h : s.threadLocks.entries = ⟨c, locks⟩ :: rest)
    (t : ThreadName) :
    (groupThreads s).threadToGroup.lookup t = some 0 ↔ t = c ∨ Shares s c t := by
  have hsplit : s.threadLocks.entries = [] ++ ⟨c, locks⟩ :: rest := h
  have hfirst := lookup_eq_iff_of_fresh hsplit (Finset.notMem_empty c) t
  simpa [empty] using hfirst

theorem mem_visited_addHolder (hp : g.Partition) {entry : Sigma fun _ : ThreadName => USet Addr}
    (hentry : entry ∈ s.threadLocks.entries) {t : ThreadName} (ht : t ∈ g.visited ∨ t = entry.1) :
    t ∈ (g.addHolder s.threadLocks entry).visited := by
  by_cases hvis : entry.1 ∈ g.visited
  . rw [addHolder, if_pos hvis]
    rcases ht with ht | rfl
    . exact ht
    . exact hvis
  . have ho := opens_addHolder hp hentry hvis
    rw [(hp.addHolder entry).visited, ← AList.lookup_isSome]
    by_cases hpt : t = entry.1 ∨ (t ∉ g.visited ∧ Shares s entry.1 t)
    . rw [ho.lookup_new t hpt]
      rfl
    . rw [ho.lookup_old t hpt, AList.lookup_isSome, ← hp.visited]
      rw [not_or] at hpt
      exact ht.resolve_right hpt.1

theorem mem_visited_of_addHolder (hp : g.Partition) {entry : Sigma fun _ : ThreadName => USet Addr}
    (hentry : entry ∈ s.threadLocks.entries) {t : ThreadName}
    (ht : t ∈ (g.addHolder s.threadLocks entry).visited) :
    t ∈ g.visited ∨ t = entry.1 ∨ Shares s entry.1 t := by
  by_cases hvis : entry.1 ∈ g.visited
  . rw [addHolder, if_pos hvis] at ht
    exact .inl ht
  . have ho := opens_addHolder hp hentry hvis
    by_cases hpt : t = entry.1 ∨ (t ∉ g.visited ∧ Shares s entry.1 t)
    . exact .inr (hpt.imp_right And.right)
    . left
      rwa [(hp.addHolder entry).visited, ← AList.lookup_isSome, ho.lookup_old t hpt, AList.lookup_isSome,
        ← hp.visited] at ht

theorem visited_before_addHolder (hp : g.Partition) {entry : Sigma fun _ : ThreadName => USet Addr}
    (hentry : entry ∈ s.threadLocks.entries) {before : List (Sigma fun _ : ThreadName => USet Addr)}
    (h : ∀ entry' ∈ before, entry'.1 ∈ g.visited) :
    ∀ entry' ∈ before ++ [entry], entry'.1 ∈ (g.addHolder s.threadLocks entry).visited := by
  intro entry' hentry'
  apply mem_visited_addHolder hp hentry
  rcases List.mem_append.mp hentry' with hentry' | hentry'
  . exact .inl (h entry' hentry')
  . exact .inr (by rw [List.mem_singleton.mp hentry'])

theorem mem_visited_holders {t : ThreadName} :
    t ∈ (s.threadLocks.entries.foldl (addHolder s.threadLocks) empty).visited ↔ t ∈ s.threadLocks := by
  constructor
  . refine (Run.foldl_invariant_mem (I := fun g : Grouping => g.Partition ∧
      (t ∈ g.visited → t ∈ s.threadLocks)) ?_ ⟨partition_empty, by simp [empty]⟩).2
    rintro g entry hentry ⟨hp, h⟩
    refine ⟨hp.addHolder entry, fun ht => ?_⟩
    rcases mem_visited_of_addHolder hp hentry ht with ht | rfl | ⟨a, -, ha⟩
    . exact h ht
    . exact AList.mem_keys.mpr (List.mem_map_of_mem hentry)
    . exact ha.mem
  . intro ht
    obtain ⟨entry, hentry, rfl⟩ := Tracker.exists_entry_of_mem ht
    refine (Run.foldl_invariant_before
      (I := fun (before : List (Sigma fun _ : ThreadName => USet Addr)) (g : Grouping) =>
        g.Partition ∧ ∀ entry ∈ before, entry.1 ∈ g.visited) ?_ ⟨partition_empty, by simp⟩).2 entry hentry
    rintro before entry after g hentries ⟨hp, hbefore⟩
    exact ⟨hp.addHolder entry, visited_before_addHolder hp (by simp [hentries]) hbefore⟩

theorem lookup_addWaiter_of_mem (hp : g.Partition) {t : ThreadName} (ht : t ∈ g.visited)
    (u : ThreadName) : (g.addWaiter u).threadToGroup.lookup t = g.threadToGroup.lookup t := by
  by_cases hvis : u ∈ g.visited
  . rw [addWaiter, if_neg (not_not.mpr hvis)]
  . apply (opens_addWaiter hp hvis).lookup_old
    rintro rfl
    exact hvis ht

theorem lookup_foldl_addWaiter (hp : g.Partition) {t : ThreadName} (ht : t ∈ g.visited)
    (waiters : List ThreadName) :
    (waiters.foldl addWaiter g).threadToGroup.lookup t = g.threadToGroup.lookup t := by
  refine (Run.foldl_invariant (I := fun g' : Grouping => g'.Partition ∧ t ∈ g'.visited ∧
    g'.threadToGroup.lookup t = g.threadToGroup.lookup t) ?_ ⟨hp, ht, rfl⟩ waiters).2.2
  rintro g' u ⟨hp', ht', heq⟩
  refine ⟨hp'.addWaiter u, (mem_visited_addWaiter hp').mpr (.inr ht'), ?_⟩
  rw [lookup_addWaiter_of_mem hp' ht', heq]

theorem lookup_eq_of_shares {t u : ThreadName} (htu : Shares s t u)
    (hsame : ∀ c, c ≠ t → c ≠ u → (Shares s c t ↔ Shares s c u)) :
    (groupThreads s).threadToGroup.lookup t = (groupThreads s).threadToGroup.lookup u := by
  have hholders : (s.threadLocks.entries.foldl (addHolder s.threadLocks) empty).Partition ∧
      (s.threadLocks.entries.foldl (addHolder s.threadLocks) empty).threadToGroup.lookup t
        =
      (s.threadLocks.entries.foldl (addHolder s.threadLocks) empty).threadToGroup.lookup u := by
    refine Run.foldl_invariant_mem
      (I := fun g : Grouping => g.Partition ∧ g.threadToGroup.lookup t = g.threadToGroup.lookup u) ?_
      ⟨partition_empty, rfl⟩
    rintro g entry hentry ⟨hp, heq⟩
    refine ⟨hp.addHolder entry, ?_⟩
    by_cases hvis : entry.1 ∈ g.visited
    . rwa [addHolder, if_pos hvis]
    . have ho := opens_addHolder hp hentry hvis
      have hvis_iff : t ∈ g.visited ↔ u ∈ g.visited := by
        rw [hp.visited, hp.visited, ← AList.lookup_isSome, ← AList.lookup_isSome, heq]
      -- the loop takes both of them or none of them
      have hboth : (t = entry.1 ∨ (t ∉ g.visited ∧ Shares s entry.1 t)) ↔
          (u = entry.1 ∨ (u ∉ g.visited ∧ Shares s entry.1 u)) := by
        by_cases ht : entry.1 = t
        . rw [ht] at hvis ⊢
          exact iff_of_true (.inl rfl) (.inr ⟨hvis_iff.not.mp hvis, htu⟩)
        . by_cases hu : entry.1 = u
          . rw [hu] at hvis ⊢
            exact iff_of_true (.inr ⟨hvis_iff.not.mpr hvis, htu.symm⟩) (.inl rfl)
          . rw [hvis_iff, hsame entry.1 ht hu]
            simp [Ne.symm ht, Ne.symm hu]
      by_cases ht : t = entry.1 ∨ (t ∉ g.visited ∧ Shares s entry.1 t)
      . rw [ho.lookup_new t ht, ho.lookup_new u (hboth.mp ht)]
      . rw [ho.lookup_old t ht, ho.lookup_old u (hboth.not.mp ht), heq]
  obtain ⟨a, hta, hua⟩ := htu
  have ht := mem_visited_holders.mpr hta.mem
  have hu := mem_visited_holders.mpr hua.mem
  rw [groupThreads, lookup_foldl_addWaiter hholders.1 ht, lookup_foldl_addWaiter hholders.1 hu, hholders.2]

theorem exists_lookup_iff {t : ThreadName} :
    (∃ i, (groupThreads s).threadToGroup.lookup t = some i) ↔ t ∈ s.threadLocks ∨ t ∈ s.waitsFor := by
  rw [← Option.isSome_iff_exists, AList.lookup_isSome, ← partition_groupThreads.visited,
    mem_visited_groupThreads, mem_visited_holders]

theorem mem_of_lookup {t : ThreadName} {i : Nat} (ht : (groupThreads s).threadToGroup.lookup t = some i) :
    t ∈ s.threadLocks ∨ t ∈ s.waitsFor :=
  exists_lookup_iff.mp ⟨i, ht⟩

theorem eq_of_lookup_eq_of_not_held {x t : ThreadName} {i : Nat} (hx : ∀ a, ¬s.Held x a)
    (hi : (groupThreads s).threadToGroup.lookup x = some i)
    (ht : (groupThreads s).threadToGroup.lookup t = some i) : t = x := by
  obtain ⟨c, hc⟩ := exists_center s i
  rcases hc x hi with rfl | ⟨a, -, ha⟩
  . rcases hc t ht with rfl | ⟨a, ha, -⟩
    . rfl
    . exact absurd ha (hx a)
  . exact absurd ha (hx a)

theorem eq_of_lookup_eq_of_shares {t u : ThreadName} {i : Nat} (hs : ∀ t u, Shares s t u → t = u)
    (ht : (groupThreads s).threadToGroup.lookup t = some i)
    (hu : (groupThreads s).threadToGroup.lookup u = some i) : t = u := by
  obtain ⟨c, hc⟩ := exists_center s i
  have heq : ∀ x, (groupThreads s).threadToGroup.lookup x = some i → x = c := by
    intro x hx
    rcases hc x hx with hx | hx
    . exact hx
    . exact (hs c x hx).symm
  rw [heq t ht, heq u hu]

end loops

end Grouping

end DeadlockInterceptor
