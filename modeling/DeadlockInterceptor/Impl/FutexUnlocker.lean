import DeadlockInterceptor.Impl.Helpers

/-!
This module contains the class `FutexUnlocker`, which sets futex words of another process to zero. The
system calls have arbitrary outcomes, the ones that write change the bytes they report to have written.
The delays between the attempts change nothing and are not modelled.
-/

namespace DeadlockInterceptor

abbrev Memory := Addr → UInt8

namespace Memory

def word (memory : Memory) (addr : Addr) : Nat :=
  (memory addr).toNat + 2 ^ 8 * (memory (addr + 1)).toNat + 2 ^ 16 * (memory (addr + 2)).toNat +
    2 ^ 24 * (memory (addr + 3)).toNat

def zero (memory : Memory) (addr : Addr) (n : Nat) : Memory :=
  fun a => if (a - addr).toNat < n then 0 else memory a

end Memory

inductive SysCall where
  | processVmReadv (addr : Addr)
  | openMemRdonly
  | pread (addr : Addr)
  | processVmWritev (addr : Addr)
  | openMemRdwr
  | pwrite (addr : Addr)
  | ptraceAttach
  | waitpid
  /-- Read `TracerPid` in `/proc/<target_pid>/status`, the count of the reply is the value. -/
  | readTracerPid
  | pokeData (addr : Addr)
  | futexWake (addr : Addr)
  deriving DecidableEq

/--
What a system call returns: a count of bytes or another non-negative value, or -1 and `errno`.
-/
inductive Reply where
  | ok (n : Nat)
  | error (errno : Nat)
  deriving DecidableEq

/--
The bytes a call has overwritten. The writes are of 4 bytes, but `PTRACE_POKEDATA` writes a machine word.
-/
def SysCall.written : SysCall → Reply → Option (Addr × Nat)
  | .processVmWritev addr, .ok n => some (addr, min n 4)
  | .pwrite addr, .ok n => some (addr, min n 4)
  | .pokeData addr, .ok _ => some (addr, 8)
  | _, _ => none

structure Kernel where
  reply : Nat → Reply
  getpid : Nat

/--
The fields of the class, the memory of the target and the system calls made so far. The two counters are of type `int`
in the source and are not bounded here.
-/
structure FutexUnlocker where
  memory : Memory
  ptraceAttached : Bool := false
  totalAttempts : Nat := 0
  successfulUnlocks : Nat := 0
  log : List (SysCall × Reply) := []

namespace FutexUnlocker

def eperm : Nat := 1

variable (kernel : Kernel)

def call (c : SysCall) : StateM FutexUnlocker Reply := fun u =>
  let reply := kernel.reply u.log.length
  let memory :=
    match c.written reply with
    | some (addr, n) => u.memory.zero addr n
    | none => u.memory
  (reply, { u with memory := memory, log := u.log ++ [(c, reply)] })

def readProcessMemory (addr : Addr) : StateM FutexUnlocker (Option Nat) := do
  let value := (← get).memory.word addr
  if (← call kernel (.processVmReadv addr)) = .ok 4 then
    return some value
  else
    -- If process_vm_readv fails, try reading via /proc/mem
    match ← call kernel .openMemRdonly with
    | .ok _ =>
      if (← call kernel (.pread addr)) = .ok 4 then
        return some value
      else
        return none
    | .error _ => return none

def isUnlocked (lockAddr : Addr) : StateM FutexUnlocker Bool := do
  match ← readProcessMemory kernel lockAddr with
  | some value => return value = 0
  | none => return false

def wakeFutex (lockAddr : Addr) : StateM FutexUnlocker Unit := do
  let _ ← call kernel (.futexWake lockAddr)

def unlockWithProcessVm (lockAddr : Addr) : StateM FutexUnlocker Bool := do
  if (← call kernel (.processVmWritev lockAddr)) = .ok 4 then
    wakeFutex kernel lockAddr
    return true
  else
    return false

def unlockWithProcMem (lockAddr : Addr) : StateM FutexUnlocker Bool := do
  match ← call kernel .openMemRdwr with
  | .error _ => return false
  | .ok _ =>
    if (← call kernel (.pwrite lockAddr)) = .ok 4 then
      wakeFutex kernel lockAddr
      return true
    else
      return false

def attach : Nat → StateM FutexUnlocker Bool
  | 0 => return false
  | attempts + 1 => do
    match ← call kernel .ptraceAttach with
    | .ok _ =>
      let _ ← call kernel .waitpid
      return true
    | .error errno =>
      if errno = eperm then
        -- Check if it's already attached to us
        match ← call kernel .readTracerPid with
        | .ok tracerPid => if tracerPid = kernel.getpid then return true else attach attempts
        | .error _ => attach attempts
      else
        attach attempts

/--
The fallback that writes byte by byte, each of the writes is of a machine word nevertheless.
-/
def pokeBytes (lockAddr : Addr) : List Addr → Bool → StateM FutexUnlocker Bool
  | [], success => return success
  | i :: rest, _ => do
    match ← call kernel (.pokeData (lockAddr + i)) with
    | .ok _ => pokeBytes lockAddr rest true
    | .error errno => if errno ≠ 0 then return false else pokeBytes lockAddr rest true

def poke (lockAddr : Addr) : StateM FutexUnlocker Bool := do
  match ← call kernel (.pokeData lockAddr) with
  | .ok _ => return true
  | .error _ => pokeBytes kernel lockAddr [0, 1, 2, 3] false

def unlockWithPtrace (lockAddr : Addr) : StateM FutexUnlocker Bool := do
  let attached ← if (← get).ptraceAttached then pure true else attach kernel 3
  if attached then
    modify fun u => { u with ptraceAttached := true }
    let success ← poke kernel lockAddr
    if success then
      wakeFutex kernel lockAddr
    return success
  else
    return false

def tryMethod (method : Addr → StateM FutexUnlocker Bool) (lockAddr : Addr) :
    StateM FutexUnlocker Bool := do
  if ← method lockAddr then isUnlocked kernel lockAddr else return false

def tryMethods (lockAddr : Addr) : StateM FutexUnlocker Bool := do
  if ← tryMethod kernel (unlockWithProcessVm kernel) lockAddr then
    return true
  else if ← tryMethod kernel (unlockWithProcMem kernel) lockAddr then
    return true
  else
    tryMethod kernel (unlockWithPtrace kernel) lockAddr

def attempts (lockAddr : Addr) : Nat → StateM FutexUnlocker Bool
  | 0 => return false
  | n + 1 => do
    if ← tryMethods kernel lockAddr then
      modify fun u => { u with successfulUnlocks := u.successfulUnlocks + 1 }
      return true
    else
      attempts lockAddr n

def unlock (lockAddr : Addr) (maxAttempts : Nat) : StateM FutexUnlocker Bool := do
  modify fun u => { u with totalAttempts := u.totalAttempts + 1 }
  if ← isUnlocked kernel lockAddr then
    modify fun u => { u with successfulUnlocks := u.successfulUnlocks + 1 }
    return true
  else
    attempts kernel lockAddr maxAttempts

def unlockMultiple (maxAttempts : Nat) : List Addr → StateM FutexUnlocker Nat
  | [] => return 0
  | addr :: lockAddrs => do
    let success ← unlock kernel addr maxAttempts
    let count ← unlockMultiple maxAttempts lockAddrs
    return if success then count + 1 else count

def unlockBestEffort (lockAddr : Addr) : StateM FutexUnlocker Bool := do
  if ← isUnlocked kernel lockAddr then
    return true
  else if ← tryMethod kernel (unlockWithProcessVm kernel) lockAddr then
    return true
  else if ← tryMethod kernel (unlockWithProcMem kernel) lockAddr then
    return true
  else if ← tryMethod kernel (unlockWithPtrace kernel) lockAddr then
    return true
  else
    return false

end FutexUnlocker

end DeadlockInterceptor
