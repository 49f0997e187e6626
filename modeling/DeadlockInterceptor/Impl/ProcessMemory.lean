import DeadlockInterceptor.Bytes.LittleEndian
import DeadlockInterceptor.Bytes.Window
import DeadlockInterceptor.Impl.FutexUnlocker

/-!
This module contains `read_process_memory` and `write_process_memory`, which access the memory of a traced process
in words. A word that can be peeked can be poked.
-/

namespace DeadlockInterceptor

abbrev Long := BitVec 64

namespace Long

def size : Nat := 8

def ofBytes (bs : List UInt8) : Long := .ofNat 64 (LittleEndian.value bs)

def toBytes (word : Long) : List UInt8 := LittleEndian.bytes size word.toNat

end Long

structure Target where
  memory : Memory
  accessible : Addr → Bool

namespace Target

def eio : Nat := 5

/--
`PTRACE_PEEKDATA` returns the word, which may be -1, so `errno` tells if it has failed.
-/
def peekData (target : Target) (addr : Addr) : Long × Nat :=
  if target.accessible addr then (.ofBytes (Window.window target.memory addr Long.size), 0) else (-1, eio)

def pokeData (target : Target) (addr : Addr) (word : Long) : Long × Target :=
  if target.accessible addr then
    (0, { target with memory := Window.overlay target.memory addr word.toBytes })
  else
    (-1, target)

def readWords (target : Target) : (words : Nat) → (addr : Addr) → (dest : List UInt8) → Bool × List UInt8
  | 0, addr, dest =>
    if dest.length > 0 then
      let (word, errno) := target.peekData addr
      if errno ≠ 0 then (false, dest) else (true, word.toBytes.take dest.length)
    else
      (true, dest)
  | words + 1, addr, dest =>
    let (word, errno) := target.peekData addr
    if errno ≠ 0 then
      (false, dest)
    else
      let (success, rest) := target.readWords words (addr + 8) (dest.drop Long.size)
      (success, word.toBytes ++ rest)

/--
The size is the one of the buffer, which is returned with what has been read.
-/
def readProcessMemory (target : Target) (addr : Addr) (buffer : List UInt8) : Bool × List UInt8 :=
  target.readWords (buffer.length / Long.size) addr buffer

/--
Write the words of the buffer at `addr` and after it. A last word that is not full keeps its other bytes.
-/
def writeWords (target : Target) : (words : Nat) → (addr : Addr) → (src : List UInt8) → Bool × Target
  | 0, addr, src =>
    if src.length > 0 then
      let (existing, errno) := target.peekData addr
      if errno ≠ 0 then
        (false, target)
      else
        let (result, target) := target.pokeData addr (.ofBytes (src ++ existing.toBytes.drop src.length))
        if result = -1 then (false, target) else (true, target)
    else
      (true, target)
  | words + 1, addr, src =>
    let (result, target) := target.pokeData addr (.ofBytes (src.take Long.size))
    if result = -1 then (false, target) else target.writeWords words (addr + 8) (src.drop Long.size)

def writeProcessMemory (target : Target) (addr : Addr) (buffer : List UInt8) : Bool × Target :=
  target.writeWords (buffer.length / Long.size) addr buffer

end Target

end DeadlockInterceptor
