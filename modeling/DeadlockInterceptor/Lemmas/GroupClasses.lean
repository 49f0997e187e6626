import DeadlockInterceptor.Lemmas.GroupResolutions

/-!
This module contains when the groups are the classes of threads that are linked by shared locks. A group is
opened for the first thread of `thread_locks` that is in none, and takes in the threads that share a lock with
that one thread only.
-/

open Relation

namespace DeadlockInterceptor

/--
A chain of threads leads from `t` to `u`, each of which shares a lock with the next one.
-/
def Linked (s : Tracker) : ThreadName → ThreadName → Prop := ReflTransGen (Shares s)

section linked

variable {s : Tracker} {t u v : ThreadName}

theorem Linked.trans (htu : Linked s t u) (huv : Linked s u v) : Linked s t v := ReflTransGen.trans htu huv

theorem Linked.symm (h : Linked s t u) : Linked s u t := by
  induction h with
  | refl => exact .refl
  | tail _ hshares ih => exact .head hshares.symm ih

theorem Shares.linked (h : Shares s t u) : Linked s t u := .single h

theorem Linked.mem (h : Linked s t u) (ht : t ∈ s.threadLocks) : u ∈ s.threadLocks := by
  induction h with
  | refl => exact ht
  | tail _ hshares _ =>
    obtain ⟨a, -, ha⟩ := hshares
    exact ha.mem

theorem Linked.eq_of_notMem (h : Linked s t u) (ht : t ∉ s.threadLocks) : u = t := by
  cases h.symm with
  | refl => rfl
  | tail _ hshares =>
    obtain ⟨a, -, ha⟩ := hshares
    exact absurd ha.mem ht

theorem Linked.eq_or_shares (htrans : ∀ t u v, Shares s t u → Shares s u v → Shares s t v)
    (h : Linked s t u) : u = t ∨ Shares s t u := by
  induction h with
  | refl => exact .inl rfl
  | tail _ hshares ih =>
    rcases ih with rfl | ih
    . exact .inr hshares
    . exact .inr (htrans _ _ _ ih hshares)

end linked

namespace Grouping

def Classes (s : Tracker) (g : Grouping) : Prop :=
  ∀ t i, g.threadToGroup.lookup t = some i → ∀ u, g.threadToGroup.lookup u = some i ↔ Linked s t u

variable {s : Tracker} {g g' : Grouping} {c : ThreadName} {p : ThreadName → Prop}

theorem Classes.opens (h : g.Classes s) (hp : g.Partition) (ho : g.Opens g' p)
    (hclass : ∀ t, p t ↔ Linked s c t) : g'.Classes s := by
  intro t i ht u
  by_cases hpt : p t
  . rw [ho.lookup_new t hpt, Option.some.injEq] at ht
    subst ht
    by_cases hpu : p u
    . exact iff_of_true (ho.lookup_new u hpu) (((hclass t).mp hpt).symm.trans ((hclass u).mp hpu))
    . rw [ho.lookup_old u hpu]
      apply iff_of_false
      . exact fun hu => Nat.lt_irrefl _ (hp.lookup_lt u _ hu)
      . exact fun htu => hpu ((hclass u).mpr (((hclass t).mp hpt).trans htu))
  . rw [ho.lookup_old t hpt] at ht
    by_cases hpu : p u
    . have hlt := hp.lookup_lt t i ht
      rw [ho.lookup_new u hpu, Option.some.injEq]
      apply iff_of_false
      . omega
      . exact fun htu => hpt ((hclass t).mpr (((hclass u).mp hpu).trans htu.symm))
    . rw [ho.lookup_old u hpu]
      exact h t i ht u

theorem Classes.mem_visited (h : g.Classes s) (hp : g.Partition) {t u : ThreadName} (htu : Linked s t u)
    (ht : t ∈ g.visited) : u ∈ g.visited := by
  rw [hp.visited] at ht ⊢
  obtain ⟨i, hi⟩ := AList.lookup_of_mem ht
  rw [← AList.lookup_isSome, (h t i hi u).mpr htu]
  rfl

end Grouping

/-- The loops over `thread_locks` come by no thread that is linked with `c` before they come by `c`. -/
def FirstOfClass (s : Tracker) (c : ThreadName) : Prop :=
  ∃ before after, s.threadLocks.keys = before ++ c :: after ∧ ∀ t ∈ before, ¬Linked s c t

/--
In each class of linked threads the thread that is visited first shares a lock with every other one.
-/
def FirstsShareWithClass (s : Tracker) : Prop :=
  ∀ c, FirstOfClass s c → ∀ t, Linked s c t → t = c ∨ Shares s c t

theorem firstOfClass_iff {s : Tracker} {c : ThreadName} :
    FirstOfClass s c
      ↔
    ∃ before locks after, s.threadLocks.entries = before ++ ⟨c, locks⟩ :: after ∧
      ∀ entry ∈ before, ¬Linked s c entry.1 := by
  constructor
  . rintro ⟨before, after, hkeys, hbefore⟩
    obtain ⟨before', rest, hentries, rfl, hrest⟩ := List.map_eq_append_iff.mp hkeys
    obtain ⟨⟨c', locks⟩, after', rfl, rfl, rfl⟩ := List.map_eq_cons_iff.mp hrest
    refine ⟨before', locks, after', hentries, ?_⟩
    intro entry hentry
    exact hbefore entry.1 (List.mem_map_of_mem hentry)
  . rintro ⟨before, locks, after, hentries, hbefore⟩
    refine ⟨before.map Sigma.fst, after.map Sigma.fst, ?_, ?_⟩
    . rw [AList.keys, List.keys, hentries, List.map_append, List.map_cons]
    . intro t ht
      obtain ⟨entry, hentry, rfl⟩ := List.mem_map.mp ht
      exact hbefore entry hentry

section groups

open Grouping

variable {s : Tracker}

theorem classes_foldl_addHolder (h : FirstsShareWithClass s) :
    (s.threadLocks.entries.foldl (addHolder s.threadLocks) empty).Classes s := by
  refine (Run.foldl_invariant_before
    (I := fun (before : List (Sigma fun _ : ThreadName => USet Addr)) (g : Grouping) =>
      g.Partition ∧ g.Classes s ∧ ∀ entry ∈ before, entry.1 ∈ g.visited) ?_ ?_).2.1
  . rintro before entry after g hentries ⟨hp, hclasses, hbefore⟩
    have hentry : entry ∈ s.threadLocks.entries := by simp [hentries]
    refine ⟨hp.addHolder entry, ?_, visited_before_addHolder hp hentry hbefore⟩
    by_cases hvis : entry.1 ∈ g.visited
    . rwa [addHolder, if_pos hvis]
    . have hfresh : ∀ t, Linked s entry.1 t → t ∉ g.visited := by
        intro t ht hmem
        exact hvis (hclasses.mem_visited hp ht.symm hmem)
      have hfirst : FirstOfClass s entry.1 := by
        refine firstOfClass_iff.mpr ⟨before, entry.2, after, hentries, ?_⟩
        intro entry' hentry' hlinked
        exact hfresh entry'.1 hlinked (hbefore entry' hentry')
      refine hclasses.opens hp (opens_addHolder hp hentry hvis) (c := entry.1) ?_
      intro t
      constructor
      . rintro (rfl | ⟨-, hshares⟩)
        . exact .refl
        . exact hshares.linked
      . intro hlinked
        exact (h entry.1 hfirst t hlinked).imp_right fun hshares => ⟨hfresh t hlinked, hshares⟩
  . refine ⟨partition_empty, ?_, by simp⟩
    intro t i ht
    simp [empty] at ht

theorem classes_groupThreads (h : FirstsShareWithClass s) : (groupThreads s).Classes s := by
  have hholders : ∀ t ∈ s.threadLocks,
      t ∈ (s.threadLocks.entries.foldl (addHolder s.threadLocks) empty).visited :=
    fun t ht => mem_visited_holders.mpr ht
  refine (Run.foldl_invariant (I := fun g : Grouping => g.Partition ∧ g.Classes s ∧
    ∀ t ∈ s.threadLocks, t ∈ g.visited) ?_
    ⟨partition_foldl_addHolder _, classes_foldl_addHolder h, hholders⟩ s.waitsFor.keys).2.1
  rintro g x ⟨hp, hclasses, hmem⟩
  refine ⟨hp.addWaiter x, ?_, fun t ht => (mem_visited_addWaiter hp).mpr (.inr (hmem t ht))⟩
  by_cases hvis : x ∈ g.visited
  . rwa [addWaiter, if_neg (not_not.mpr hvis)]
  . -- a thread that only waits is linked with no other one
    refine hclasses.opens hp (opens_addWaiter hp hvis) (c := x) ?_
    intro t
    constructor
    . rintro rfl
      exact .refl
    . exact fun hlinked => hlinked.eq_of_notMem fun hx => hvis (hmem x hx)

end groups

section sameGroup

variable {s : Tracker} {t u : ThreadName}

def SameGroup (s : Tracker) (t u : ThreadName) : Prop :=
  ∃ group ∈ analyzeConflictGroups s, t ∈ group.threads ∧ u ∈ group.threads

theorem sameGroup_iff :
    SameGroup s t u
      ↔
    ∃ i, (groupThreads s).threadToGroup.lookup t = some i ∧
      (groupThreads s).threadToGroup.lookup u = some i := by
  simp only [← findGroup_analyze, findGroup_eq_some_iff]
  constructor
  . rintro ⟨group, hgroup, ht, hu⟩
    exact ⟨group.groupId, ⟨group, hgroup, rfl, ht⟩, ⟨group, hgroup, rfl, hu⟩⟩
  . rintro ⟨i, ⟨group, hgroup, rfl, ht⟩, ⟨group', hgroup', hid, hu⟩⟩
    rw [eq_of_groupId_eq hgroup' hgroup hid] at hu
    exact ⟨group, hgroup, ht, hu⟩

def GroupsAreClasses (s : Tracker) : Prop :=
  ∀ t u, (t ∈ s.threadLocks ∨ t ∈ s.waitsFor) → (u ∈ s.threadLocks ∨ u ∈ s.waitsFor) →
    (SameGroup s t u ↔ Linked s t u)

theorem FirstsShareWithClass.groupsAreClasses (h : FirstsShareWithClass s) : GroupsAreClasses s := by
  intro t u ht _
  have hclasses := classes_groupThreads h
  rw [sameGroup_iff]
  constructor
  . rintro ⟨i, hi, hu⟩
    exact (hclasses t i hi u).mp hu
  . intro htu
    obtain ⟨i, hi⟩ := Grouping.exists_lookup_iff.mpr ht
    exact ⟨i, hi, (hclasses t i hi u).mpr htu⟩

open Grouping in
theorem GroupsAreClasses.firstsShareWithClass (h : GroupsAreClasses s) : FirstsShareWithClass s := by
  intro c hfirst t hlinked
  obtain ⟨before, locks, after, hentries, hbefore⟩ := firstOfClass_iff.mp hfirst
  have hc : c ∈ s.threadLocks := by
    rw [AList.mem_keys, AList.keys, List.keys, hentries]
    simp
  -- what has been visited before `c` is linked with one of the threads before `c`
  have hvisited : (before.foldl (addHolder s.threadLocks) empty).Partition ∧
      ∀ x ∈ (before.foldl (addHolder s.threadLocks) empty).visited,
        ∃ entry ∈ before, Linked s entry.1 x := by
    refine Run.foldl_invariant_mem (I := fun g : Grouping => g.Partition ∧
      ∀ x ∈ g.visited, ∃ entry ∈ before, Linked s entry.1 x) ?_ ⟨partition_empty, by simp [empty]⟩
    rintro g entry hentry ⟨hp, hg⟩
    have hentry' : entry ∈ s.threadLocks.entries := by simp [hentries, hentry]
    refine ⟨hp.addHolder entry, fun x hx => ?_⟩
    rcases mem_visited_of_addHolder hp hentry' hx with hx | rfl | hshares
    . exact hg x hx
    . exact ⟨entry, hentry, .refl⟩
    . exact ⟨entry, hentry, hshares.linked⟩
  have hfresh : c ∉ (before.foldl (addHolder s.threadLocks) empty).visited := by
    intro hmem
    obtain ⟨entry, hentry, hx⟩ := hvisited.2 c hmem
    exact hbefore entry hentry hx.symm
  have hgroup := lookup_eq_iff_of_fresh hentries hfresh
  obtain ⟨i, hi, ht⟩ := sameGroup_iff.mp ((h c t (.inl hc) (.inl (hlinked.mem hc))).mpr hlinked)
  rw [(hgroup c).mpr (.inl rfl), Option.some.injEq] at hi
  subst hi
  rcases (hgroup t).mp ht with rfl | ⟨-, hshares⟩
  . exact .inl rfl
  . exact .inr hshares

theorem groupsAreClasses_iff (s : Tracker) : GroupsAreClasses s ↔ FirstsShareWithClass s :=
  ⟨GroupsAreClasses.firstsShareWithClass, FirstsShareWithClass.groupsAreClasses⟩

def chain : GlobalState :=
  .run [⟨.wake, 1, 0x10000, .bare⟩, ⟨.wake, 2, 0x10000, .bare⟩, ⟨.wake, 2, 0x10010, .bare⟩,
    ⟨.wake, 3, 0x10010, .bare⟩]

theorem exists_splitHolders : ¬∀ s, GroupsAreClasses s := by
  intro h
  have hshares : Shares chain.toTracker (identifierOf ['t', 'h', 'r', 'e', 'a', 'd', '-', '1'] 1)
      (identifierOf ['t', 'h', 'r', 'e', 'a', 'd', '-', '2'] 2) := ⟨0x10000, by decide, by decide⟩
  have hsplit : ¬SameGroup chain.toTracker (identifierOf ['t', 'h', 'r', 'e', 'a', 'd', '-', '1'] 1)
      (identifierOf ['t', 'h', 'r', 'e', 'a', 'd', '-', '2'] 2) := by
    unfold SameGroup
    decide
  apply hsplit
  apply (h chain.toTracker _ _ _ _).mpr hshares.linked
  . exact .inl (by decide)
  . exact .inl (by decide)

theorem groupsAreClasses_forall_iff (s : Tracker) :
    (∀ s', s.Same s' → GroupsAreClasses s')
      ↔
    ∀ t u v, Shares s t u → Shares s u v → Shares s t v := by
  constructor
  . intro h t u v htu huv
    obtain ⟨a, hta, hua⟩ := htu
    have hsame : s.Same (s.holderFirst t) := Tracker.same_holderFirst hta.mem
    have hfirst : FirstOfClass (s.holderFirst t) t := by
      obtain ⟨locks, rest, hentries⟩ := s.entries_holderFirst t
      exact firstOfClass_iff.mpr ⟨[], locks, rest, hentries, by simp⟩
    have hlinked : Linked (s.holderFirst t) t v := by
      apply Linked.trans (u := u)
      . exact ((hsame.shares_iff t u).mpr ⟨a, hta, hua⟩).linked
      . exact ((hsame.shares_iff u v).mpr huv).linked
    rcases (h _ hsame).firstsShareWithClass t hfirst v hlinked with rfl | hshares
    . exact ⟨a, hta, hta⟩
    . exact (hsame.shares_iff t v).mp hshares
  . intro htrans s' hsame
    apply FirstsShareWithClass.groupsAreClasses
    intro c _ t hlinked
    apply hlinked.eq_or_shares
    simpa only [hsame.shares_iff] using htrans

end sameGroup

end DeadlockInterceptor
