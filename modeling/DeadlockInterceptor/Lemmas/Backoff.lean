import DeadlockInterceptor.Impl.Backoff
import DeadlockInterceptor.Lemmas.FutexUnlocker

/-!
This module contains when the delays between the attempts of `unlock` are defined. The power of two is multiplied
before it is capped, so it has to fit as well.
-/

namespace DeadlockInterceptor

namespace CInt

theorem check_of_mem {n : Int} (hlow : intMin ≤ n) (hhigh : n ≤ intMax) : check n = some n :=
  if_pos ⟨hlow, hhigh⟩

theorem check_of_lt {n : Int} (h : intMax < n) : check n = none := by
  apply if_neg
  omega

theorem check_of_le {n : Nat} (h : n ≤ 2 ^ 30) : check (n : Int) = some (n : Int) := by
  apply check_of_mem
  . unfold intMin
    omega
  . unfold intMax
    omega

theorem shiftOne_of_lt {k : Nat} (hk : k < 31) : shiftOne k = some ((2 ^ k : Nat) : Int) := by
  rw [shiftOne, if_pos (by omega), Int.toNat_natCast]
  exact check_of_le (Nat.pow_le_pow_right (by omega) (by omega))

theorem shiftOne_of_le {k : Nat} (hk : 31 ≤ k) : shiftOne k = none := by
  apply if_neg
  omega

end CInt

namespace FutexUnlocker

variable {kernel : Kernel} {u : FutexUnlocker} {lockAddr : Addr}

section delay

def ValidSleep (attempt : Nat) : Prop :=
  ∀ dist : Draw, ∃ ms, sleepWithJitter dist 10 attempt = some ms ∧ 1 ≤ ms ∧ ms ≤ 2500

theorem abs_draw_le (dist : Draw) {delay : Int} (hpos : 0 ≤ delay) :
    (-delay).tdiv 4 ≤ delay.tdiv 4 ∧
      -(delay / 4) ≤ dist.value ((-delay).tdiv 4) (delay.tdiv 4) ∧
      dist.value ((-delay).tdiv 4) (delay.tdiv 4) ≤ delay / 4 := by
  have hupper : delay.tdiv 4 = delay / 4 := Int.tdiv_eq_ediv_of_nonneg hpos
  have hlower : (-delay).tdiv 4 = -(delay / 4) := by
    rw [Int.neg_tdiv, hupper]
  rw [hlower, hupper]
  have hle : -(delay / 4) ≤ delay / 4 := by omega
  exact ⟨hle, dist.mem _ _ hle⟩

theorem validSleep_of_le {attempt : Nat} (h : attempt ≤ 27) : ValidSleep attempt := by
  intro dist
  have hlow : 1 ≤ 2 ^ attempt := Nat.one_le_two_pow
  have hhigh : 2 ^ attempt ≤ 2 ^ 27 := Nat.pow_le_pow_right (by omega) h
  have hshift := @CInt.shiftOne_of_lt attempt (by omega)
  generalize 2 ^ attempt = power at hlow hhigh hshift
  have hproduct : CInt.check (10 * (power : Int)) = some (10 * (power : Int)) := by
    apply CInt.check_of_mem
    . unfold CInt.intMin
      omega
    . unfold CInt.intMax
      omega
  obtain ⟨delay, hdelay⟩ : ∃ delay : Int, delay = min (10 * (power : Int)) 2000 := ⟨_, rfl⟩
  have hpos : 10 ≤ delay := by omega
  have hcap : delay ≤ 2000 := by omega
  obtain ⟨hbounds, hdown, hup⟩ := abs_draw_le dist (Int.le_trans (by omega) hpos)
  have hsmall : ∀ n : Int, -2000 ≤ n → n ≤ 2500 → CInt.check n = some n := by
    intro n hn hn'
    apply CInt.check_of_mem
    . unfold CInt.intMin
      omega
    . unfold CInt.intMax
      omega
  have hneg := hsmall (-delay) (by omega) (by omega)
  have hsum := hsmall (delay + dist.value ((-delay).tdiv 4) (delay.tdiv 4)) (by omega) (by omega)
  refine ⟨max 1 (delay + dist.value ((-delay).tdiv 4) (delay.tdiv 4)), ?_, by omega, by omega⟩
  simp only [sleepWithJitter, hshift, Option.bind_eq_bind, Option.bind_some, hproduct, ← hdelay, hneg,
    if_pos hbounds, hsum]
  rfl

theorem not_validSleep_of_lt {attempt : Nat} (h : 27 < attempt) : ¬ValidSleep attempt := by
  intro hvalid
  obtain ⟨ms, hms, -⟩ := hvalid ⟨fun lower _ => lower, fun _ _ hle => ⟨Int.le_refl _, hle⟩⟩
  by_cases hshift : attempt < 31
  . have hlow : 2 ^ 28 ≤ 2 ^ attempt := Nat.pow_le_pow_right (by omega) h
    have hproduct : CInt.check (10 * ((2 ^ attempt : Nat) : Int)) = none := by
      apply CInt.check_of_lt
      generalize 2 ^ attempt = power at hlow
      unfold CInt.intMax
      omega
    simp only [sleepWithJitter, CInt.shiftOne_of_lt hshift, Option.bind_eq_bind, Option.bind_some, hproduct,
      Option.bind_none, reduceCtorEq] at hms
  . simp only [sleepWithJitter, CInt.shiftOne_of_le (Nat.le_of_not_lt hshift), Option.bind_eq_bind,
      Option.bind_none, reduceCtorEq] at hms

end delay

section sleeps

theorem map_fst_attemptsFrom (kernel : Kernel) (lockAddr : Addr) (maxAttempts attempt rest : Nat) :
    Prod.fst <$> attemptsFrom kernel lockAddr maxAttempts attempt rest = attempts kernel lockAddr rest := by
  induction rest generalizing attempt with
  | zero => rfl
  | succ rest ih =>
    rw [attemptsFrom, attempts, map_bind]
    congr
    funext success
    cases success with
    | true => rfl
    | false =>
      rw [if_neg Bool.false_ne_true, if_neg Bool.false_ne_true, ← ih (attempt + 1), map_bind, ← bind_pure_comp]
      rfl

theorem map_fst_unlockSleeps (kernel : Kernel) (lockAddr : Addr) (maxAttempts : Nat) :
    Prod.fst <$> unlockSleeps kernel lockAddr maxAttempts = unlock kernel lockAddr maxAttempts := by
  rw [unlockSleeps, unlock, map_bind]
  congr
  funext _
  rw [map_bind]
  congr
  funext unlocked
  cases unlocked with
  | true => rfl
  | false => exact map_fst_attemptsFrom kernel lockAddr maxAttempts 0 maxAttempts

def BeforeLast (maxAttempts : Nat) (r : Bool × List Nat) (_ : FutexUnlocker) : Prop :=
  ∀ attempt ∈ r.2, attempt < maxAttempts - 1

theorem beforeLast_nil {P : FutexUnlocker → Prop} (maxAttempts : Nat) (success : Bool) :
    Ensures P (pure (success, [])) (BeforeLast maxAttempts) :=
  .pure fun _ _ _ hmem => absurd hmem List.not_mem_nil

theorem ensures_attemptsFrom (kernel : Kernel) (lockAddr : Addr) (maxAttempts attempt rest : Nat) :
    Ensures (fun _ => True) (attemptsFrom kernel lockAddr maxAttempts attempt rest) (BeforeLast maxAttempts) := by
  induction rest generalizing attempt with
  | zero => exact beforeLast_nil maxAttempts false
  | succ rest ih =>
    refine .bind (Q := fun _ _ => True) (fun _ _ => trivial) fun _ => .ite (fun _ => ?_) fun _ => ?_
    . exact .bind (Q := fun _ _ => True) (fun _ _ => trivial) fun _ => beforeLast_nil maxAttempts true
    . refine .bind (ih (attempt + 1)) fun r => .pure fun u hr => ?_
      intro attempt' hmem
      dsimp only at hmem
      split at hmem
      . next hlt =>
        rcases List.mem_cons.mp hmem with rfl | hlater
        . exact hlt
        . exact hr attempt' hlater
      . exact hr attempt' hmem

theorem ensures_unlockSleeps (kernel : Kernel) (lockAddr : Addr) (maxAttempts : Nat) :
    Ensures (fun _ => True) (unlockSleeps kernel lockAddr maxAttempts) (BeforeLast maxAttempts) := by
  refine .bind (Q := fun _ _ => True) (fun _ _ => trivial) fun _ => ?_
  refine .bind (Q := fun _ _ => True) (fun _ _ => trivial) fun _ => .ite (fun _ => ?_) fun _ => ?_
  . exact .bind (Q := fun _ _ => True) (fun _ _ => trivial) fun _ => beforeLast_nil maxAttempts true
  . exact ensures_attemptsFrom kernel lockAddr maxAttempts 0 maxAttempts

def refusingKernel : Kernel := ⟨fun _ => .error 5, 1⟩

theorem tryMethods_refusing (lockAddr : Addr) (u : FutexUnlocker) :
    ((tryMethods refusingKernel lockAddr).run u).1 = false := by
  obtain ⟨memory, ptraceAttached, totalAttempts, successfulUnlocks, log⟩ := u
  cases ptraceAttached with
  | true => rfl
  | false => rfl

theorem ensures_attemptsFrom_refusing (lockAddr : Addr) {maxAttempts attempt rest : Nat}
    (h : attempt + rest = maxAttempts) :
    Ensures (fun _ => True) (attemptsFrom refusingKernel lockAddr maxAttempts attempt rest) fun r _ =>
      ∀ k, attempt ≤ k → k < maxAttempts - 1 → k ∈ r.2 := by
  induction rest generalizing attempt with
  | zero =>
    refine .pure fun _ _ k hle hlt => ?_
    omega
  | succ rest ih =>
    have hfailed : Ensures (fun _ => True) (tryMethods refusingKernel lockAddr) fun b _ => b = false ∧ True :=
      fun u _ => ⟨tryMethods_refusing lockAddr u, trivial⟩
    refine .bind_eq hfailed ?_
    refine .bind (ih (by omega)) fun r => .pure fun u hr k hle hlt => ?_
    dsimp only
    rw [if_pos (by omega)]
    rcases Nat.eq_or_lt_of_le hle with rfl | hlater
    . exact List.mem_cons_self
    . exact List.mem_cons_of_mem attempt (hr k hlater hlt)

theorem mem_sleeps_refusing (u : FutexUnlocker) (lockAddr : Addr) {maxAttempts k : Nat} (hk : k < maxAttempts - 1) :
    k ∈ ((unlockSleeps refusingKernel lockAddr maxAttempts).run u).1.2 :=
  ensures_attemptsFrom_refusing lockAddr (Nat.zero_add maxAttempts) _ trivial k (Nat.zero_le k) hk

def ValidSleeps (kernel : Kernel) (u : FutexUnlocker) (lockAddr : Addr) (maxAttempts : Nat) : Prop :=
  ∀ attempt ∈ ((unlockSleeps kernel lockAddr maxAttempts).run u).1.2, ValidSleep attempt

/--
The delays are valid, whatever the system calls do, exactly if the last of them comes after attempt 27 at the latest.
-/
theorem validSleeps_iff (u : FutexUnlocker) (lockAddr : Addr) (maxAttempts : Nat) :
    (∀ kernel, ValidSleeps kernel u lockAddr maxAttempts) ↔ maxAttempts ≤ 29 := by
  constructor
  . intro h
    by_contra hmany
    have hsleeps : 28 ∈ ((unlockSleeps refusingKernel lockAddr maxAttempts).run u).1.2 :=
      mem_sleeps_refusing u lockAddr (by omega)
    exact not_validSleep_of_lt (by omega) (h refusingKernel 28 hsleeps)
  . intro hfew kernel attempt hmem
    have hlt := ensures_unlockSleeps kernel lockAddr maxAttempts u trivial attempt hmem
    exact validSleep_of_le (by omega)

theorem exists_invalidSleep : ¬∀ (kernel : Kernel) (u : FutexUnlocker) (lockAddr : Addr) (maxAttempts : Nat),
    0 < maxAttempts → ValidSleeps kernel u lockAddr maxAttempts := by
  intro h
  have hsleeps : 28 ∈ ((unlockSleeps refusingKernel 0x10000 30).run { memory := fun _ => 1 }).1.2 :=
    mem_sleeps_refusing _ _ (by decide)
  exact not_validSleep_of_lt (by decide) (h refusingKernel _ 0x10000 30 (by decide) 28 hsleeps)

end sleeps

end FutexUnlocker

end DeadlockInterceptor
