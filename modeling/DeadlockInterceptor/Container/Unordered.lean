import Mathlib.Data.List.AList
import Mathlib.Data.List.Perm.Basic
import Mathlib.Data.Finset.Card

/-!
This module contains the unordered containers the rest of the development is built on. A container
is a duplicate free list, and the order of that list is the order in which a loop over the container
visits it. As nothing is known about the order of a hash table a statement about all iteration orders
is a statement about all such lists.
-/

universe u v w

@[ext]
structure USet (α : Type u) where
  toList : List α
  nodup : toList.Nodup

namespace USet

variable {α : Type u}

instance : Membership α (USet α) where
  mem s a := a ∈ s.toList

instance : EmptyCollection (USet α) where
  emptyCollection := ⟨[], .nil⟩

theorem mem_def {s : USet α} {a : α} : a ∈ s ↔ a ∈ s.toList := Iff.rfl

@[simp]
theorem mem_toList {s : USet α} {a : α} : a ∈ s.toList ↔ a ∈ s := Iff.rfl

@[simp]
theorem toList_empty : (∅ : USet α).toList = [] := rfl

@[simp]
theorem notMem_empty (a : α) : a ∉ (∅ : USet α) := List.not_mem_nil

variable [DecidableEq α]

instance : DecidableEq (USet α) := fun s t =>
  decidable_of_iff (s.toList = t.toList) USet.ext_iff.symm

instance (s : USet α) (a : α) : Decidable (a ∈ s) :=
  inferInstanceAs (Decidable (a ∈ s.toList))

def insert (s : USet α) (a : α) : USet α := ⟨s.toList.insert a, s.nodup.insert⟩

def erase (s : USet α) (a : α) : USet α := ⟨s.toList.erase a, s.nodup.erase a⟩

def insertAll (s : USet α) (l : List α) : USet α := l.foldl insert s

def front (s : USet α) (a : α) : USet α :=
  if a ∈ s then
    ⟨a :: s.toList.erase a, List.nodup_cons.mpr ⟨s.nodup.not_mem_erase, s.nodup.erase a⟩⟩
  else
    s

@[simp]
theorem mem_front {s : USet α} {a b : α} : b ∈ s.front a ↔ b ∈ s := by
  unfold front
  split
  . next h =>
    rw [mem_def, List.mem_cons, s.nodup.mem_erase_iff]
    by_cases hb : b = a
    . subst hb
      simp [h]
    . simp [hb]
  . rfl

theorem head?_front {s : USet α} {a : α} (h : a ∈ s) : (s.front a).toList.head? = some a := by
  rw [front, if_pos h]
  rfl

@[simp]
theorem mem_insert {s : USet α} {a b : α} : b ∈ s.insert a ↔ b = a ∨ b ∈ s := by
  simp only [mem_def, insert]
  exact List.mem_insert_iff

@[simp]
theorem mem_erase {s : USet α} {a b : α} : b ∈ s.erase a ↔ b ≠ a ∧ b ∈ s := by
  simp only [mem_def, erase]
  exact s.nodup.mem_erase_iff

@[simp]
theorem mem_insertAll {s : USet α} {l : List α} {a : α} : a ∈ s.insertAll l ↔ a ∈ s ∨ a ∈ l := by
  induction l generalizing s with
  | nil => simp [insertAll]
  | cons b l ih =>
    have : s.insertAll (b :: l) = (s.insert b).insertAll l := rfl
    rw [this, ih, mem_insert, List.mem_cons]
    constructor
    . rintro ((h | h) | h) <;> simp [h]
    . rintro (h | h | h) <;> simp [h]

end USet

/--
An unordered map, the order of its entries is the order a loop visits them in.
-/
abbrev UMap (κ : Type u) (υ : Type v) : Type (max u v) := AList (fun _ : κ => υ)

namespace AList

variable {κ : Type u} {υ : Type v} {ν : Type w}

/--
Apply `f` to every mapped value, the loop `for (auto &kv : m) kv.second = f(kv.second)`.
-/
def mapVal (f : υ → ν) (m : UMap κ υ) : UMap κ ν :=
  ⟨m.entries.map (.map id fun _ => f), List.NodupKeys.map₂ (fun _ => f) m.entries m.nodupKeys⟩

@[simp]
theorem keys_mapVal (f : υ → ν) (m : UMap κ υ) : (m.mapVal f).keys = m.keys :=
  List.map₂_keys (fun _ => f) m.entries

@[simp]
theorem mem_mapVal (f : υ → ν) (m : UMap κ υ) (k : κ) : k ∈ m.mapVal f ↔ k ∈ m := by
  rw [AList.mem_keys, AList.mem_keys, keys_mapVal]

def eraseVal [DecidableEq υ] (m : UMap κ υ) (v : υ) : UMap κ υ :=
  ⟨m.entries.filter fun entry => entry.2 ≠ v, m.nodupKeys.sublist List.filter_sublist⟩

variable [DecidableEq κ]

def getD (m : UMap κ υ) (k : κ) (d : υ) : υ := (m.lookup k).getD d

/--
The side effect of `operator[]`: a missing entry is created with the value `d`.
-/
def touch (m : UMap κ υ) (k : κ) (d : υ) : UMap κ υ := if k ∈ m then m else m.insert k d

@[simp]
theorem lookup_mapVal (f : υ → ν) (m : UMap κ υ) (k : κ) :
    (m.mapVal f).lookup k = (m.lookup k).map f :=
  List.dlookup_map₂ (f := fun _ => f) k

theorem lookup_insert_eq (m : UMap κ υ) (k k' : κ) (v : υ) :
    (m.insert k v).lookup k' = if k' = k then some v else m.lookup k' := by
  split
  . next h =>
    subst h
    exact AList.lookup_insert m
  . next h => exact AList.lookup_insert_ne h

theorem lookup_erase_eq (m : UMap κ υ) (k k' : κ) :
    (m.erase k).lookup k' = if k' = k then none else m.lookup k' := by
  split
  . next h =>
    subst h
    exact AList.lookup_erase k' m
  . next h => exact AList.lookup_erase_ne h

theorem getD_insert (m : UMap κ υ) (k k' : κ) (v d : υ) :
    (m.insert k v).getD k' d = if k' = k then v else m.getD k' d := by
  simp only [getD, lookup_insert_eq]
  split <;> rfl

theorem getD_erase (m : UMap κ υ) (k k' : κ) (d : υ) :
    (m.erase k).getD k' d = if k' = k then d else m.getD k' d := by
  simp only [getD, lookup_erase_eq]
  split <;> rfl

theorem getD_mapVal (f : υ → ν) (m : UMap κ υ) (k : κ) (d : υ) :
    (m.mapVal f).getD k (f d) = f (m.getD k d) := by
  simp only [getD, lookup_mapVal]
  cases m.lookup k <;> rfl

theorem keys_insert_eq (m : UMap κ υ) (k : κ) (v : υ) :
    (m.insert k v).keys = k :: m.keys.filter (· ≠ k) := by
  rw [AList.keys_insert, m.keys_nodup.erase_eq_filter]
  congr 1
  apply List.filter_congr
  intro k' _
  rw [bne, Bool.beq_eq_decide_eq, decide_not]

theorem lookup_of_mem {m : UMap κ υ} {k : κ} (h : k ∈ m) : ∃ v, m.lookup k = some v :=
  Option.isSome_iff_exists.mp (AList.lookup_isSome.mpr h)

@[simp]
theorem getD_touch (m : UMap κ υ) (k k' : κ) (d : υ) : (m.touch k d).getD k' d = m.getD k' d := by
  unfold touch
  split
  . rfl
  . next h =>
    rw [getD_insert]
    split
    . next hk =>
      subst hk
      rw [getD, AList.lookup_eq_none.mpr h]
      rfl
    . rfl

theorem mem_touch {m : UMap κ υ} {k k' : κ} {d : υ} : k' ∈ m.touch k d ↔ k' = k ∨ k' ∈ m := by
  unfold touch
  split
  . next h =>
    constructor
    . exact .inr
    . rintro (rfl | h')
      . exact h
      . exact h'
  . exact AList.mem_insert m

theorem lookup_eraseVal_eq_some [DecidableEq υ] {m : UMap κ υ} {k : κ} {u v : υ} :
    (m.eraseVal v).lookup k = some u ↔ m.lookup k = some u ∧ u ≠ v := by
  have hentry : ∀ m : UMap κ υ, m.lookup k = some u ↔ ⟨k, u⟩ ∈ m.entries := by
    intro m
    apply AList.mem_lookup_iff
  rw [hentry, hentry, eraseVal, List.mem_filter, decide_eq_true_eq]

theorem mem_of_mem_eraseVal [DecidableEq υ] {m : UMap κ υ} {k : κ} {v : υ} (h : k ∈ m.eraseVal v) : k ∈ m := by
  obtain ⟨u, hu⟩ := lookup_of_mem h
  rw [← AList.lookup_isSome, (lookup_eraseVal_eq_some.mp hu).1]
  rfl

theorem getD_eraseVal [DecidableEq υ] (m : UMap κ υ) (k : κ) (d : υ) :
    (m.eraseVal d).getD k d = m.getD k d := by
  unfold getD
  cases h : m.lookup k with
  | none =>
    cases h' : (m.eraseVal d).lookup k with
    | none => rfl
    | some u =>
      have := (lookup_eraseVal_eq_some.mp h').1
      rw [h] at this
      simp at this
  | some u =>
    cases h' : (m.eraseVal d).lookup k with
    | none =>
      by_cases hu : u = d
      . rw [hu]
        rfl
      . have := lookup_eraseVal_eq_some.mpr ⟨h, hu⟩
        rw [h'] at this
        simp at this
    | some u' =>
      have := (lookup_eraseVal_eq_some.mp h').1
      rw [h] at this
      rw [this]

theorem lookup_foldl_erase_eq_some {p : Option υ → Prop} [DecidablePred p] {l : List κ} {m : UMap κ υ}
    {k : κ} {v : υ} :
    (l.foldl (fun m k' => if p (m.lookup k') then m.erase k' else m) m).lookup k = some v
      ↔
    m.lookup k = some v ∧ ¬(k ∈ l ∧ p (some v)) := by
  induction l generalizing m with
  | nil => simp
  | cons k' l ih =>
    rw [List.foldl_cons, ih]
    split
    . next hp =>
      rw [lookup_erase_eq]
      split
      . next hk =>
        subst hk
        apply iff_of_false
        . simp
        . rintro ⟨hv, hnot⟩
          rw [hv] at hp
          exact hnot ⟨List.mem_cons_self, hp⟩
      . next hk => simp [hk]
    . next hp =>
      by_cases hk : k = k'
      . subst hk
        apply and_congr_right
        intro hv
        rw [hv] at hp
        simp [hp]
      . simp [hk]

theorem mem_of_mem_foldl_erase {p : Option υ → Prop} [DecidablePred p] {l : List κ} {m : UMap κ υ} {k : κ}
    (h : k ∈ l.foldl (fun m k' => if p (m.lookup k') then m.erase k' else m) m) : k ∈ m := by
  obtain ⟨v, hv⟩ := lookup_of_mem h
  rw [← AList.lookup_isSome, (lookup_foldl_erase_eq_some.mp hv).1]
  rfl

theorem lookup_foldl_insert_eq_some {l : List (κ × υ)} {m : UMap κ υ} {k : κ} {v : υ}
    (hl : ∀ p ∈ l, p.1 = k → p.2 = v) :
    (l.foldl (fun m p => m.insert p.1 p.2) m).lookup k = some v
      ↔
    m.lookup k = some v ∨ ∃ p ∈ l, p.1 = k := by
  induction l generalizing m with
  | nil => simp
  | cons p l ih =>
    rw [List.foldl_cons, ih fun q hq => hl q (List.mem_cons_of_mem p hq), lookup_insert_eq]
    split
    . next hk =>
      rw [hl p List.mem_cons_self hk.symm]
      exact iff_of_true (.inl rfl) (.inr ⟨p, List.mem_cons_self, hk.symm⟩)
    . next hk => simp [Ne.symm hk]

end AList

/--
The order in which a loop visits a container that was filled by inserting the values of a list from
left to right: some permutation of that list, chosen by the hash table.
-/
structure HashOrder (α : Type u) where
  order : List α → List α
  perm : ∀ l, (order l).Perm l

namespace HashOrder

variable {α : Type u}

instance : Inhabited (HashOrder α) := ⟨⟨id, fun _ => List.Perm.refl _⟩⟩

@[simp]
theorem mem_order (ho : HashOrder α) {l : List α} {a : α} : a ∈ ho.order l ↔ a ∈ l :=
  (ho.perm l).mem_iff

def prefer (p : α → Bool) : HashOrder α where
  order l := l.filter p ++ l.filter fun a => !p a
  perm := List.filter_append_perm p

end HashOrder

theorem List.Nodup.filter_eq_singleton {α : Type u} {l : List α} {a : α} {p : α → Bool} (hl : l.Nodup)
    (ha : a ∈ l) (hp : ∀ b ∈ l, p b = true ↔ b = a) : l.filter p = [a] := by
  have hmem : ∀ b, b ∈ l.filter p ↔ b ∈ [a] := by
    intro b
    rw [List.mem_filter, List.mem_singleton]
    constructor
    . rintro ⟨hb, hpb⟩
      exact (hp b hb).mp hpb
    . rintro rfl
      exact ⟨ha, (hp b ha).mpr rfl⟩
  exact List.perm_singleton.mp ((List.perm_ext_iff_of_nodup (hl.filter p) (List.nodup_singleton a)).mpr hmem)

theorem List.Nodup.flatMap_of {α : Type u} {β : Type v} {l : List α} {f : α → List β} (hl : l.Nodup)
    (hf : ∀ a ∈ l, (f a).Nodup) (hinj : ∀ a ∈ l, ∀ a' ∈ l, ∀ b, b ∈ f a → b ∈ f a' → a = a') :
    (l.flatMap f).Nodup := by
  rw [List.nodup_flatMap]
  refine ⟨hf, hl.imp_of_mem ?_⟩
  intro a a' ha ha' hne b hb hb'
  exact hne (hinj a ha a' ha' b hb hb')

theorem HashOrder.head?_prefer {α : Type u} {l : List α} {a : α} {p : α → Bool} (hl : l.Nodup) (ha : a ∈ l)
    (hp : ∀ b ∈ l, p b = true ↔ b = a) : ((HashOrder.prefer p).order l).head? = some a := by
  change (l.filter p ++ _).head? = some a
  rw [hl.filter_eq_singleton ha hp]
  rfl
