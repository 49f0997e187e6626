import DeadlockInterceptor.Impl.PrivateMemory
import DeadlockInterceptor.Text.Lines
import DeadlockInterceptor.Text.Scanf

/-!
This module contains `read_process_maps`, which reads the memory map of a process below `/proc`.
-/

namespace DeadlockInterceptor

/-- `%lx-%lx %7s %*x %*x:%*x %*d %255[^\n]` -/
def mapsFormat : List Text.Directive :=
  [.hex true, .literal '-', .hex true, .space, .word 7, .space, .hex false, .space, .hex false, .literal ':', .hex false,
    .space, .skipInt, .space, .toNewline 255]

/-- A region if at least three values are assigned. The buffer of the name is empty before. -/
def regionOfValues : List Text.Value → Option MemoryRegion
  | .num start :: .num endAddr :: .text perms :: .text name :: _ =>
    some ⟨UInt64.ofNat start, UInt64.ofNat endAddr, perms, name⟩
  | [.num start, .num endAddr, .text perms] => some ⟨UInt64.ofNat start, UInt64.ofNat endAddr, perms, []⟩
  | _ => none

def regionOfLine (line : Str) : Option MemoryRegion :=
  regionOfValues (Text.sscanf isSpace (line.takeWhile (· ≠ '\x00')) mapsFormat)

/-- The buffer of 512 bytes has room for a line of 510. -/
def readProcessMaps (maps : Option Str) : List MemoryRegion :=
  match maps with
  | none => []
  | some content => (Text.buffers 510 content).filterMap regionOfLine

end DeadlockInterceptor
