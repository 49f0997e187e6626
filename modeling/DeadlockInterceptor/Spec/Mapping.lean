import DeadlockInterceptor.Impl.ProcessMaps

/-!
This module contains the memory map of a process as the kernel writes it, with one line for each mapping.
-/

namespace DeadlockInterceptor

structure MappingLine where
  start : UInt64
  endAddr : UInt64
  perms : Str
  offset : Nat
  major : Nat
  minor : Nat
  inode : Nat
  padding : Nat

def MappingLine.write (m : MappingLine) (tail : Str) : Str :=
  Text.hexPadded 8 m.start.toNat ++ ('-' :: (Text.hexPadded 8 m.endAddr.toNat ++ (' ' :: (m.perms ++ (' ' ::
    (Text.hexPadded 8 m.offset ++ (' ' :: (Text.hexPadded 2 m.major ++ (':' :: (Text.hexPadded 2 m.minor ++ (' ' ::
      (Nat.toDigits 10 m.inode ++ (' ' :: (List.replicate m.padding ' ' ++ tail))))))))))))))

/--
The name is a path or a description in brackets, it is empty for an anonymous mapping.
-/
structure Mapping extends MappingLine where
  name : Str
  perms_ne_nil : perms ≠ []
  perms_le : perms.length ≤ 7
  perms_plain : ∀ c ∈ perms, isSpace c = false ∧ c ≠ '\x00'
  name_plain : ∀ c ∈ name, c ≠ '\n' ∧ c ≠ '\x00'
  name_head : ∀ c ∈ name.head?, isSpace c = false
  columns_le : (toMappingLine.write []).length ≤ 255

namespace Mapping

variable (m : Mapping)

def line : Str := m.write m.name

def region : MemoryRegion := ⟨m.start, m.endAddr, m.perms, m.name.take 255⟩

def leftover : List Str := (Text.buffers 510 (m.line ++ ['\n'])).tail

end Mapping

def mapsText (maps : List Mapping) : Str := maps.flatMap fun m => m.line ++ ['\n']

end DeadlockInterceptor
