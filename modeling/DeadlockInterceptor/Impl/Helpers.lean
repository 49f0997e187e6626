import DeadlockInterceptor.Container.Unordered
import DeadlockInterceptor.Text.Lines
import Mathlib.Data.UInt

/-!
This module contains the helper functions the tracker and the resolvers rely on: thread identifiers
and the way back from an identifier to a thread id, and the filter for implausible addresses.
-/

namespace DeadlockInterceptor

abbrev Str := List Char

abbrev Pid := Int

abbrev Addr := UInt64

abbrev ThreadName := Str

abbrev Time := Nat

structure ProcFs where
  comm : Pid → Option Str
  taskComm : Pid → Pid → Option Str

structure ThreadInfo where
  tid : Pid
  name : Str
  pid : Pid
  deriving DecidableEq

def toStr (n : Int) : Str :=
  if n < 0 then '-' :: Nat.toDigits 10 n.natAbs else Nat.toDigits 10 n.natAbs

/--
`fgets` into a buffer of 256 bytes: at most 255 bytes up to and including the first newline, and no
result on an empty file.
-/
def fgets (content : Str) : Option Str := Text.readLine 254 content

/--
What `get_thread_name` makes of a comm file: the text of the line as a C string, so up to the first
NUL byte, without the line ends.
-/
def readComm (file : Option Str) : Str :=
  match file.bind fgets with
  | some buffer => (buffer.takeWhile (· ≠ '\x00')).filter fun c => c ≠ '\n' ∧ c ≠ '\r'
  | none => []

def getThreadName (targetPid : Pid) (proc : ProcFs) (tid : Pid) (cache : UMap Pid ThreadInfo) :
    Str × UMap Pid ThreadInfo :=
  match cache.lookup tid with
  | some info => (info.name, cache)
  | none =>
    let threadName := readComm (proc.comm tid)
    let threadName :=
      if threadName = [] ∧ targetPid > 0 then
        readComm (proc.taskComm targetPid tid)
      else
        threadName
    let threadName :=
      if threadName = [] then
        ['t', 'h', 'r', 'e', 'a', 'd', '-'] ++ toStr tid
      else
        threadName
    (threadName, cache.insert tid ⟨tid, threadName, targetPid⟩)

def identifierOf (name : Str) (tid : Pid) : ThreadName := name ++ ['['] ++ toStr tid ++ [']']

def getThreadIdentifier (targetPid : Pid) (proc : ProcFs) (tid : Pid)
    (cache : UMap Pid ThreadInfo) : ThreadName × UMap Pid ThreadInfo :=
  let (name, cache) := getThreadName targetPid proc tid cache
  (identifierOf name tid, cache)

def junkAddr (addr : Addr) : Bool :=
  addr = 0 || addr < 0x10000 || addr > 0x7fffffffffff

inductive Exn where
  | invalidArgument
  | outOfRange
  deriving DecidableEq, Repr

def isSpace (c : Char) : Bool :=
  c = ' ' || c = '\t' || c = '\n' || c = '\x0b' || c = '\x0c' || c = '\r'

/--
`std::stoi` in base 10: leading white space, an optional sign, and the longest run of digits. It
throws if there is no digit or if the value does not fit an `int`.
-/
def stoi (s : Str) : Except Exn Int :=
  let s := s.dropWhile isSpace
  let (neg, s) :=
    match s with
    | '-' :: rest => (true, rest)
    | '+' :: rest => (false, rest)
    | s => (false, s)
  let digits := s.takeWhile Char.isDigit
  if digits = [] then
    .error .invalidArgument
  else
    let n : Int := Nat.ofDigitChars 10 digits 0
    let n := if neg then -n else n
    if -2147483648 ≤ n ∧ n ≤ 2147483647 then .ok n else .error .outOfRange

def substr (s : Str) (pos len : Nat) : Str := (s.drop pos).take len

/--
The tid between the first `[` and the first `]` of an identifier, 0 if one of them is missing. The
length handed to `substr` is computed in `size_t`.
-/
def extractTidFromIdentifier (identifier : ThreadName) : Except Exn Pid :=
  match identifier.idxOf? '[', identifier.idxOf? ']' with
  | some bracketPos, some endBracket =>
    stoi (substr identifier (bracketPos + 1) ((2 ^ 64 + endBracket - bracketPos - 1) % 2 ^ 64))
  | _, _ => .ok 0

example : extractTidFromIdentifier (identifierOf ['a', '.', 'o', 'u', 't'] 17) = .ok 17 := by decide

end DeadlockInterceptor
