import DeadlockInterceptor.Impl.FutexUnlocker

/-!
This module contains the delays between the attempts of `unlock`. The arithmetic on an `int` is undefined where the
result does not fit into 32 bits.
-/

namespace DeadlockInterceptor

namespace CInt

def intMin : Int := -2147483648

def intMax : Int := 2147483647

def check (n : Int) : Option Int := if intMin ≤ n ∧ n ≤ intMax then some n else none

def shiftOne (distance : Int) : Option Int :=
  if 0 ≤ distance ∧ distance < 31 then check ((2 ^ distance.toNat : Nat) : Int) else none

end CInt

structure Draw where
  value : Int → Int → Int
  mem : ∀ lower upper, lower ≤ upper → lower ≤ value lower upper ∧ value lower upper ≤ upper

namespace FutexUnlocker

/--
The milliseconds to sleep for, if nothing on the way is undefined. The quotients are rounded towards zero.
-/
def sleepWithJitter (dist : Draw) (baseMs attempt : Int) : Option Int := do
  let delay := min (← CInt.check (baseMs * (← CInt.shiftOne attempt))) 2000
  let lower := (← CInt.check (-delay)).tdiv 4
  let upper := delay.tdiv 4
  if lower ≤ upper then
    let jittered ← CInt.check (delay + dist.value lower upper)
    return max 1 jittered
  else
    none

variable (kernel : Kernel)

def attemptsFrom (lockAddr : Addr) (maxAttempts : Nat) : (attempt rest : Nat) → StateM FutexUnlocker (Bool × List Nat)
  | _, 0 => return (false, [])
  | attempt, rest + 1 => do
    if ← tryMethods kernel lockAddr then
      modify fun u => { u with successfulUnlocks := u.successfulUnlocks + 1 }
      return (true, [])
    else
      let (success, sleeps) ← attemptsFrom lockAddr maxAttempts (attempt + 1) rest
      -- If not the last attempt, wait and retry
      return (success, if attempt < maxAttempts - 1 then attempt :: sleeps else sleeps)

/--
`unlock` with the attempts after which it sleeps.
-/
def unlockSleeps (lockAddr : Addr) (maxAttempts : Nat) : StateM FutexUnlocker (Bool × List Nat) := do
  modify fun u => { u with totalAttempts := u.totalAttempts + 1 }
  if ← isUnlocked kernel lockAddr then
    modify fun u => { u with successfulUnlocks := u.successfulUnlocks + 1 }
    return (true, [])
  else
    attemptsFrom kernel lockAddr maxAttempts 0 maxAttempts

end FutexUnlocker

end DeadlockInterceptor
