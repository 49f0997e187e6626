import DeadlockInterceptor.Impl.ProcFiles

/-!
This module contains the status file of a thread as the kernel writes it: one line for each field, among others the name
that the thread has given itself, its state and its tracer.
-/

namespace DeadlockInterceptor

open Text (Field)

inductive TaskState where
  | running
  | sleeping
  | diskSleep
  | stopped
  | tracingStop
  | dead
  | zombie
  | parked
  | idle
  deriving DecidableEq

def TaskState.text : TaskState → Str
  | .running => "R (running)".toList
  | .sleeping => "S (sleeping)".toList
  | .diskSleep => "D (disk sleep)".toList
  | .stopped => "T (stopped)".toList
  | .tracingStop => "t (tracing stop)".toList
  | .dead => "X (dead)".toList
  | .zombie => "Z (zombie)".toList
  | .parked => "P (parked)".toList
  | .idle => "I (idle)".toList

def stateName : Str := ['S', 't', 'a', 't', 'e']

def tracerName : Str := ['T', 'r', 'a', 'c', 'e', 'r', 'P', 'i', 'd']

def escape (name : Str) : Str :=
  name.flatMap fun c => if c = '\n' then ['\\', 'n'] else if c = '\\' then ['\\', '\\'] else [c]

theorem newline_notMem_escape (name : Str) : '\n' ∉ escape name := by
  simp only [escape, List.mem_flatMap, not_exists, not_and]
  intro c _
  split_ifs with hnewline hbackslash
  . decide
  . decide
  . simpa using Ne.symm hnewline

namespace TaskState

def field (state : TaskState) : Field where
  label := stateName
  value := state.text
  label_plain := by simp [stateName]
  value_plain := by cases state <;> decide

end TaskState

def nameField (name : Str) : Field where
  label := ['N', 'a', 'm', 'e']
  value := escape name
  label_plain := by simp
  value_plain := newline_notMem_escape name

def tracerField (tracerPid : Nat) : Field where
  label := tracerName
  value := Nat.toDigits 10 tracerPid
  label_plain := by simp [tracerName]
  value_plain h := absurd (Nat.isDigit_of_mem_toDigits (by omega) (by omega) h) (by decide)

/-- A field that is none of those that are looked for. It may be longer than the buffer if it has no colon. -/
structure OtherField extends Field where
  readable : toField.Readable 254
  ne_state : label ≠ stateName
  ne_tracer : label ≠ tracerName

/--
The name is at most 15 bytes long, and pids are positive numbers of type `int`. The tracer is 0 if there is none.
-/
structure ThreadStatus where
  name : Str
  before : List OtherField
  state : TaskState
  between : List OtherField
  tracerPid : Nat
  after : List OtherField
  name_le : name.length ≤ 15
  tracerPid_lt : tracerPid < 2147483648

namespace ThreadStatus

variable (status : ThreadStatus)

def fields : List Field :=
  nameField status.name :: status.before.map (·.toField) ++ status.state.field ::
    (status.between.map (·.toField) ++ tracerField status.tracerPid :: status.after.map (·.toField))

def text : Str := Text.fieldLines status.fields

end ThreadStatus

/-- The status of a thread if we have the pid 2 and all others that trace it the pid 1. -/
def plainStatus (t : Tracee) : ThreadStatus where
  name := "a.out".toList
  before := []
  state := if t.stopped then if t.tracer = .nobody then .stopped else .tracingStop else .running
  between := []
  tracerPid := match t.tracer with
    | .nobody => 0
    | .us => 2
    | .other => 1
  after := []
  name_le := by decide
  tracerPid_lt := by cases t.tracer <;> decide

/--
The file is the status file of the thread. A thread that is gone has none, and one that is traced is never in the state
`T`.
-/
structure Tracing.Describes (getpid : Pid) (t : Tracee) (file : Option Str) : Prop where
  gone : t.alive = false → file = none
  shown : t.alive = true → ∃ status : ThreadStatus, file = some status.text ∧
    Tracer.ofPid getpid status.tracerPid = t.tracer ∧ status.state ≠ .zombie ∧
    (status.state = .stopped ↔ t.stopped = true ∧ t.tracer = .nobody)

end DeadlockInterceptor
