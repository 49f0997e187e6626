import DeadlockInterceptor.Lemmas.Identifiers
import DeadlockInterceptor.Impl.Strategy1
import DeadlockInterceptor.Text.Digits

/-!
This module contains whose locks the clean-up of the parent process releases. It takes a thread for the owner if
the digits of the tid of the victim occur in its identifier.
-/

namespace DeadlockInterceptor

theorem toStr_infix_identifierOf_iff {tid tid' : Pid} {name : Str} :
    toStr tid <:+: identifierOf name tid' ↔ toStr tid <:+: name ∨ toStr tid <:+: toStr tid' := by
  have hopen : '[' ∉ toStr tid := fun h => absurd (eq_minus_or_isDigit_of_mem_toStr h) (by decide)
  have hclose : ']' ∉ toStr tid := fun h => absurd (eq_minus_or_isDigit_of_mem_toStr h) (by decide)
  have hne : toStr tid ≠ [] := by
    intro hnil
    unfold toStr at hnil
    split at hnil
    . cases hnil
    . exact Nat.toDigits_ne_nil hnil
  rw [identifierOf, Text.infix_append_cons_iff hclose, List.append_assoc, List.singleton_append,
    Text.infix_append_cons_iff hopen, List.infix_nil, or_iff_left hne]

namespace World

variable {w : World} {proc : ProcFs} {victimTid : Pid} {locks : List Addr}

theorem owner_cleanupParentProcess {a : Addr} {owner : ThreadName} :
    (w.cleanupParentProcess proc victimTid locks).2.owner a = some owner
      ↔
    w.owner a = some owner ∧ ¬(a ∈ locks ∧ toStr victimTid <:+: owner) := by
  have hfold := AList.lookup_foldl_erase_eq_some (p := fun o => ∃ owner ∈ o, toStr victimTid <:+: owner)
    (l := locks) (m := w.lockOwners) (k := a) (v := owner)
  have hp : (∃ owner' ∈ some owner, toStr victimTid <:+: owner') ↔ toStr victimTid <:+: owner := by
    simp
  rw [hp] at hfold
  exact hfold

theorem toStr_infix_victim : toStr victimTid <:+: (w.threadIdentifier proc victimTid).1 :=
  ⟨_, [']'], rfl⟩

/--
The locks of the list that the victim owns are released, and no other ones.
-/
def ReleasesVictimOnly (w : World) (proc : ProcFs) (victimTid : Pid) (locks : List Addr) : Prop :=
  ∀ a owner, (w.cleanupParentProcess proc victimTid locks).2.owner a = some owner ↔
    w.owner a = some owner ∧ ¬(a ∈ locks ∧ owner = (w.threadIdentifier proc victimTid).1)

/--
The clean-up releases the locks of the victim only if and only if the digits of its tid do not occur in the
identifier of another owner of one of the locks, that is in its name or in its tid.
-/
theorem releasesVictimOnly_iff (w : World) (proc : ProcFs) (victimTid : Pid) (locks : List Addr) :
    (w.ReleasesVictimOnly proc victimTid locks
      ↔
      ∀ a ∈ locks, ∀ owner, w.owner a = some owner → owner ≠ (w.threadIdentifier proc victimTid).1 →
        ¬toStr victimTid <:+: owner) ∧
    ∀ name tid, toStr victimTid <:+: identifierOf name tid ↔
      toStr victimTid <:+: name ∨ toStr victimTid <:+: toStr tid := by
  refine ⟨?_, fun name tid => toStr_infix_identifierOf_iff⟩
  constructor
  . intro h a ha owner howner hne hmentions
    have hkept := (h a owner).mpr ⟨howner, fun hvictim => hne hvictim.2⟩
    exact (owner_cleanupParentProcess.mp hkept).2 ⟨ha, hmentions⟩
  . intro h a owner
    rw [owner_cleanupParentProcess]
    apply and_congr_right
    intro howner
    apply not_congr
    apply and_congr_right
    intro ha
    constructor
    . intro hmentions
      by_contra hne
      exact h a ha owner howner hne hmentions
    . rintro rfl
      exact toStr_infix_victim

def twelveWorld : World where
  toGlobalState := GlobalState.run [⟨.wake, 12, 0x10000, .bare⟩]
  memory := fun _ => 0

theorem exists_strayRelease : ¬∀ w proc victimTid locks, ReleasesVictimOnly w proc victimTid locks := by
  intro h
  have hkept := (h twelveWorld Env.bare.proc 1 [0x10000] 0x10000
    (identifierOf ['t', 'h', 'r', 'e', 'a', 'd', '-', '1', '2'] 12)).mpr ⟨by decide, by decide⟩
  revert hkept
  decide

end World

end DeadlockInterceptor
