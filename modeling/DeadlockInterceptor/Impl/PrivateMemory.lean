import DeadlockInterceptor.Bytes.Window
import DeadlockInterceptor.Impl.FutexUnlocker

/-!
This module contains `initialize_private_memory`, which takes all access from the pages of the locks, and the handler
of the faults on these pages. The handler runs step by step, because its own accesses may fault. What it prints and
the local copy of the page are not part of the memory.
-/

namespace DeadlockInterceptor

/--
The size of a page is a power of two, and a positive `long`.
-/
structure PageSize where
  log : Nat
  log_lt : log < 63

namespace PageSize

def sysconf (page : PageSize) : Int64 := .ofNat (2 ^ page.log)

def size (page : PageSize) : UInt64 := page.sysconf.toUInt64

end PageSize

structure MemoryRegion where
  start : UInt64
  endAddr : UInt64
  perms : Str
  name : Str
  deriving DecidableEq

def toHexString (value : UInt64) : Str := "0x".toList ++ Nat.toDigits 16 value.toNat

structure ShadowMemory where
  memory : Memory
  /-- The page at an address is `PROT_NONE`, the other ones can be read and written. -/
  protNone : Addr → Bool
  protectedRegions : List MemoryRegion

structure GuardEnv where
  sigaction : Bool
  mprotect : Nat → Bool

def lockRegion (page : PageSize) (lockAddr : UInt64) : MemoryRegion :=
  let start := lockAddr &&& (~~~(page.sysconf - 1)).toUInt64
  { start := start
    endAddr := start + page.sysconf.toUInt64
    perms := "---".toList
    name := "protected_lock_".toList ++ toHexString lockAddr }

namespace ShadowMemory

def guard (m : ShadowMemory) (region : MemoryRegion) : ShadowMemory :=
  { m with
    protNone := fun a => a - region.start < region.endAddr - region.start || m.protNone a
    protectedRegions := m.protectedRegions ++ [region] }

def guardLocks (page : PageSize) (mprotect : Nat → Bool) :
    (k : Nat) → List UInt64 → ShadowMemory → List MemoryRegion × ShadowMemory
  | _, [], m => ([], m)
  | k, lockAddr :: locks, m =>
    if mprotect k then
      let (regions, m) := guardLocks page mprotect (k + 1) locks (m.guard (lockRegion page lockAddr))
      (lockRegion page lockAddr :: regions, m)
    else
      guardLocks page mprotect (k + 1) locks m

def initializePrivateMemory (page : PageSize) (env : GuardEnv) (locks : List UInt64) (m : ShadowMemory) :
    List MemoryRegion × ShadowMemory :=
  if !env.sigaction then ([], m) else guardLocks page env.mprotect 0 locks m

def shouldDuplicatePage (m : ShadowMemory) (addr : Addr) : Bool :=
  m.protectedRegions.any fun region => addr ≥ region.start && addr < region.endAddr

end ShadowMemory

def pageStart (page : PageSize) (faultAddr : Addr) : Addr := faultAddr / page.size * page.size

inductive HandlerStep where
  | check
  | copyOut
  | remap (pageCopy : List UInt8)
  | copyIn (newPage : List UInt8)

structure Frame where
  faultAddr : Addr
  next : HandlerStep

/--
The handlers that are running, the innermost one first. A fault in a handler runs the handler again, which
`SA_NODEFER` allows. After it has returned, the access that has faulted is repeated.
-/
structure Handling extends ShadowMemory where
  frames : List Frame

namespace Handling

variable (page : PageSize) (mmapSucceeds : Bool)

def init (m : ShadowMemory) (faultAddr : Addr) : Handling := { m with frames := [⟨faultAddr, .check⟩] }

def accesses (h : Handling) : Option Addr :=
  match h.frames with
  | ⟨faultAddr, .copyOut⟩ :: _ => some (pageStart page faultAddr)
  | ⟨faultAddr, .copyIn _⟩ :: _ => some (pageStart page faultAddr)
  | _ => none

def step (h : Handling) : Handling :=
  match h.frames with
  | [] => h
  | ⟨faultAddr, next⟩ :: rest =>
    let start := pageStart page faultAddr
    match next with
    | .check =>
      -- the handler for an unhandled fault returns as well
      if !h.shouldDuplicatePage start then
        { h with frames := rest }
      else
        { h with frames := ⟨faultAddr, .copyOut⟩ :: rest }
    | .copyOut =>
      if h.protNone start then
        { h with frames := ⟨start, .check⟩ :: h.frames }
      else
        { h with frames := ⟨faultAddr, .remap (Window.window h.memory start page.size.toNat)⟩ :: rest }
    | .remap pageCopy =>
      if !mmapSucceeds then
        { h with frames := rest }
      else
        { h with
          memory := Window.overlay h.memory start (List.replicate page.size.toNat 0)
          protNone := fun a => pageStart page a ≠ start && h.protNone a
          frames := ⟨faultAddr, .copyIn pageCopy⟩ :: rest }
    | .copyIn newPage =>
      if h.protNone start then
        { h with frames := ⟨start, .check⟩ :: h.frames }
      else
        { h with memory := Window.overlay h.memory start newPage, frames := rest }

def run (h : Handling) (n : Nat) : Handling := (step page mmapSucceeds)^[n] h

end Handling

end DeadlockInterceptor
