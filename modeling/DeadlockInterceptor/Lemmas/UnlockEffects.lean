import DeadlockInterceptor.Lemmas.FutexUnlocker

/-!
This module contains what `unlock` and `unlock_multiple` leave behind: the counters, and the words that have been
set to zero and stay zero.
-/

namespace DeadlockInterceptor

namespace FutexUnlocker

variable {kernel : Kernel} {u : FutexUnlocker}

section result

def Unlocked (lockAddr : Addr) (success : Bool) (u : FutexUnlocker) : Prop :=
  success = true → u.memory.word lockAddr = 0

def Counted (attempts successes : Nat) (u : FutexUnlocker) : Prop :=
  u.totalAttempts = attempts ∧ u.successfulUnlocks = successes

theorem callInvariant_counted (kernel : Kernel) (lockAddr : Addr) (m n : Nat) :
    CallInvariant kernel lockAddr (Counted m n) where
  call _ _ _ h := h
  attached _ h := h

theorem unlockInvariant_byte (kernel : Kernel) (lockAddr : Addr) (a : Addr) (byte : UInt8) :
    UnlockInvariant kernel lockAddr fun u => u.memory a = byte ∨ u.memory a = 0 where
  call c _ u h := by
    change (FutexUnlocker.call kernel c u).2.memory a = byte ∨ (FutexUnlocker.call kernel c u).2.memory a = 0
    rw [call_memory]
    split
    . split
      . exact .inr rfl
      . exact h
    . exact h
  attached _ h := h
  counters _ _ _ h := h

theorem preserves_word (kernel : Kernel) (lockAddrs : List Addr) (maxAttempts : Nat) (a : Addr) :
    Preserves (fun u => u.memory.word a = 0) (unlockMultiple kernel maxAttempts lockAddrs) := by
  intro u h
  rw [Memory.word_eq_zero_iff] at h ⊢
  intro i hi
  have hI : ∀ addr ∈ lockAddrs, UnlockInvariant kernel addr _ := fun addr _ =>
    unlockInvariant_byte kernel addr (a + i) 0
  exact (or_self_iff).mp (preserves_unlockMultiple hI maxAttempts u (.inl (h i hi)))

theorem ensures_call_read {c : SysCall} (hc : ∀ reply, c.written reply = none) (memory : Memory) :
    Ensures (fun u => u.memory = memory) (call kernel c) fun _ u => u.memory = memory := by
  intro u h
  funext a
  change (FutexUnlocker.call kernel c u).2.memory a = memory a
  rw [call_memory, hc, h]

theorem ensures_readProcessMemory (addr : Addr) (memory : Memory) :
    Ensures (fun u => u.memory = memory) (readProcessMemory kernel addr) fun value u =>
      (∀ word, value = some word → memory.word addr = word) ∧ u.memory = memory := by
  refine .bind (Q := fun u0 u => u0.memory = memory ∧ u.memory = memory) (fun u h => ⟨h, h⟩) fun u0 => ?_
  refine .and_left fun hu0 => ?_
  have hread : ∀ word, some (u0.memory.word addr) = some word → memory.word addr = word := by
    intro word hword
    rw [← hu0]
    exact Option.some.inj hword
  have hnone : ∀ word, none = some word → memory.word addr = word := fun word hword => by cases hword
  refine .bind (ensures_call_read (fun _ => rfl) memory) fun reply => ?_
  refine .ite (fun _ => .pure fun u h => ⟨hread, h⟩) fun _ => ?_
  refine .bind (ensures_call_read (fun _ => rfl) memory) fun reply => ?_
  cases reply with
  | ok _ =>
    refine .bind (ensures_call_read (fun _ => rfl) memory) fun reply => ?_
    exact .ite (fun _ => .pure fun u h => ⟨hread, h⟩) fun _ => .pure fun u h => ⟨hnone, h⟩
  | error _ => exact .pure fun u h => ⟨hnone, h⟩

theorem ensures_isUnlocked_memory (lockAddr : Addr) (memory : Memory) :
    Ensures (fun u => u.memory = memory) (isUnlocked kernel lockAddr) fun success u =>
      Unlocked lockAddr success u ∧ u.memory = memory := by
  refine .bind (ensures_readProcessMemory lockAddr memory) fun value => ?_
  cases value with
  | some word =>
    refine .pure fun u h => ⟨?_, h.2⟩
    intro hzero
    rw [h.2, h.1 word rfl]
    exact of_decide_eq_true hzero
  | none =>
    refine .pure fun u h => ⟨?_, h.2⟩
    intro hfalse
    cases hfalse

theorem ensures_isUnlocked (lockAddr : Addr) :
    Ensures (fun _ => True) (isUnlocked kernel lockAddr) (Unlocked lockAddr) :=
  fun u _ => (ensures_isUnlocked_memory lockAddr u.memory u rfl).1

theorem ensures_unlock_zero (kernel : Kernel) (lockAddr : Addr) (memory : Memory) :
    Ensures (fun u => u.memory = memory) (unlock kernel lockAddr 0) fun success u =>
      Unlocked lockAddr success u ∧ u.memory = memory := by
  refine .bind (.modify (Q := fun _ u => u.memory = memory) fun _ h => h) fun _ => ?_
  refine .bind (ensures_isUnlocked_memory lockAddr memory) fun success => .ite (fun hsuccess => ?_) fun _ => ?_
  . refine .bind (.modify (Q := fun _ u => Unlocked lockAddr true u ∧ u.memory = memory) ?_) fun _ => ?_
    . exact fun u h => ⟨fun _ => h.1 hsuccess, h.2⟩
    . exact .pure fun _ h => h
  . refine .pure fun u h => ⟨?_, h.2⟩
    intro hfalse
    cases hfalse

theorem ensures_false (lockAddr : Addr) {P : FutexUnlocker → Prop} :
    Ensures P (pure false) (Unlocked lockAddr) :=
  .pure fun _ _ h => by cases h

theorem ensures_tryMethod (method : Addr → StateM FutexUnlocker Bool) (lockAddr : Addr) :
    Ensures (fun _ => True) (tryMethod kernel method lockAddr) (Unlocked lockAddr) :=
  .bind (Q := fun _ _ => True) (fun _ _ => trivial) fun _ =>
    .ite (fun _ => ensures_isUnlocked lockAddr) fun _ => ensures_false lockAddr

theorem ensures_tryMethods (lockAddr : Addr) :
    Ensures (fun _ => True) (tryMethods kernel lockAddr) (Unlocked lockAddr) := by
  refine .bind (ensures_tryMethod _ lockAddr) fun success => ?_
  refine .ite (fun hsuccess => .pure fun u h _ => h hsuccess) fun _ => ?_
  refine .bind ((ensures_tryMethod _ lockAddr).imp (fun _ _ => trivial) fun _ _ h => h) fun success => ?_
  refine .ite (fun hsuccess => .pure fun u h _ => h hsuccess) fun _ => ?_
  exact (ensures_tryMethod _ lockAddr).imp (fun _ _ => trivial) fun _ _ h => h

def Ended (lockAddr : Addr) (attempts successes : Nat) (success : Bool) (u : FutexUnlocker) : Prop :=
  Unlocked lockAddr success u ∧ Counted attempts (if success then successes + 1 else successes) u

theorem ensures_succeed (lockAddr : Addr) (m n : Nat) :
    Ensures (fun u => u.memory.word lockAddr = 0 ∧ Counted m n u)
      (do
        modify fun u : FutexUnlocker => { u with successfulUnlocks := u.successfulUnlocks + 1 }
        return true) (Ended lockAddr m n) := by
  refine .bind (.modify (Q := fun _ => Ended lockAddr m n true) ?_) fun _ => .pure fun _ h => h
  rintro u ⟨hzero, hm, hn⟩
  exact ⟨fun _ => hzero, hm, congrArg (· + 1) hn⟩

theorem ensures_attempts (lockAddr : Addr) (m n k : Nat) :
    Ensures (Counted m n) (attempts kernel lockAddr k) (Ended lockAddr m n) := by
  induction k with
  | zero =>
    refine .pure fun u h => ⟨?_, h⟩
    intro hfalse
    cases hfalse
  | succ k ih =>
    have htry := (ensures_tryMethods lockAddr).and_preserves
      (preserves_tryMethods (callInvariant_counted kernel lockAddr m n))
    refine .bind htry fun success => .ite (fun hsuccess => ?_) fun _ => ?_
    . exact (ensures_succeed lockAddr m n).imp (fun u h => ⟨h.1 hsuccess, h.2⟩) fun _ _ h => h
    . exact ih.imp (fun u h => h.2) fun _ _ h => h

theorem ensures_unlock (kernel : Kernel) (lockAddr : Addr) (maxAttempts m n : Nat) :
    Ensures (Counted m n) (unlock kernel lockAddr maxAttempts) (Ended lockAddr (m + 1) n) := by
  refine .bind (.modify (Q := fun _ => Counted (m + 1) n) fun u h => ⟨congrArg (· + 1) h.1, h.2⟩) fun _ => ?_
  have hread := (ensures_isUnlocked lockAddr).and_preserves
    (preserves_isUnlocked (callInvariant_counted kernel lockAddr (m + 1) n))
  refine .bind hread fun success => .ite (fun hsuccess => ?_) fun _ => ?_
  . exact (ensures_succeed lockAddr (m + 1) n).imp (fun u h => ⟨h.1 hsuccess, h.2⟩) fun _ _ h => h
  . exact (ensures_attempts lockAddr (m + 1) n maxAttempts).imp (fun u h => h.2) fun _ _ h => h

end result

section multiple

structure CountSound (lockAddrs : List Addr) (u u' : FutexUnlocker) (count : Nat) (results : List Bool) :
    Prop where
  bytes : ∀ a, u'.memory a = u.memory a ∨ u'.memory a = 0
  unlocked : lockAddrs.Forall₂ (fun addr success => success = true → u'.memory.word addr = 0) results
  count_eq : count = results.count true
  successes : u'.successfulUnlocks = u.successfulUnlocks + count
  count_le : count ≤ lockAddrs.countP fun addr => u'.memory.word addr = 0
  attempts : u'.totalAttempts = u.totalAttempts + lockAddrs.length

theorem count_le_of_forall₂ {lockAddrs : List Addr} {results : List Bool} {p : Addr → Prop} [DecidablePred p]
    (h : lockAddrs.Forall₂ (fun addr success => success = true → p addr) results) :
    results.count true ≤ lockAddrs.countP p := by
  induction h with
  | nil => simp
  | @cons addr success lockAddrs results hhead htail ih =>
    rw [List.count_cons, List.countP_cons]
    cases success with
    | false => simpa using Nat.le_add_right_of_le ih
    | true => simpa [hhead rfl] using ih

/--
The count of `unlock_multiple` is sound: whatever the outcomes of the system calls and whatever the addresses,
an unlocked word stays unlocked while the other ones are processed.
-/
theorem unlockMultiple_sound (kernel : Kernel) (maxAttempts : Nat) (lockAddrs : List Addr) (u : FutexUnlocker) :
    ∃ results,
      (lockAddrs.mapM fun addr => unlock kernel addr maxAttempts).run u
        = (results, ((unlockMultiple kernel maxAttempts lockAddrs).run u).2) ∧
      CountSound lockAddrs u ((unlockMultiple kernel maxAttempts lockAddrs).run u).2
        ((unlockMultiple kernel maxAttempts lockAddrs).run u).1 results := by
  induction lockAddrs generalizing u with
  | nil => exact ⟨[], rfl, fun _ => .inl rfl, .nil, rfl, rfl, le_rfl, rfl⟩
  | cons addr lockAddrs ih =>
    have hrun : (unlockMultiple kernel maxAttempts (addr :: lockAddrs)).run u
        = let first := (unlock kernel addr maxAttempts).run u
          let rest := (unlockMultiple kernel maxAttempts lockAddrs).run first.2
          (if first.1 then rest.1 + 1 else rest.1, rest.2) := rfl
    have hmap : ((addr :: lockAddrs).mapM fun addr => unlock kernel addr maxAttempts).run u
        = let first := (unlock kernel addr maxAttempts).run u
          let rest := (lockAddrs.mapM fun addr => unlock kernel addr maxAttempts).run first.2
          (first.1 :: rest.1, rest.2) := by
      rw [List.mapM_cons]
      rfl
    have hended := ensures_unlock kernel addr maxAttempts u.totalAttempts u.successfulUnlocks u ⟨rfl, rfl⟩
    have hbyte : ∀ a, _ := fun a =>
      preserves_unlock (unlockInvariant_byte kernel addr a (u.memory a)) maxAttempts u (.inl rfl)
    obtain ⟨results, hresults, hsound⟩ := ih ((unlock kernel addr maxAttempts).run u).2
    have hword := preserves_word kernel lockAddrs maxAttempts addr ((unlock kernel addr maxAttempts).run u).2
    simp only at hrun hmap
    revert hrun hmap hended hbyte hresults hsound hword
    rcases (unlock kernel addr maxAttempts).run u with ⟨success, u1⟩
    rcases (unlockMultiple kernel maxAttempts lockAddrs).run u1 with ⟨count, u2⟩
    rintro hrun hmap ⟨hunlocked, hattempts, hsuccesses⟩ hbyte hresults hsound hword
    simp only [hresults] at hmap
    rw [hrun]
    refine ⟨_, hmap, ?_⟩
    have hall : (addr :: lockAddrs).Forall₂ (fun addr success => success = true → u2.memory.word addr = 0)
        (success :: results) :=
      .cons (fun hsuccess => hword (hunlocked hsuccess)) hsound.unlocked
    have hcount : (if success then count + 1 else count) = (success :: results).count true := by
      rw [List.count_cons, ← hsound.count_eq]
      cases success <;> rfl
    constructor
    . intro a
      rcases hsound.bytes a with heq | hzero
      . rw [heq]
        exact hbyte a
      . exact .inr hzero
    . exact hall
    . exact hcount
    . rw [hsound.successes, hsuccesses]
      cases success
      . rfl
      . exact Nat.add_right_comm _ 1 count
    . rw [hcount]
      exact count_le_of_forall₂ hall
    . rw [hsound.attempts, hattempts, List.length_cons]
      omega

end multiple

end FutexUnlocker

end DeadlockInterceptor
