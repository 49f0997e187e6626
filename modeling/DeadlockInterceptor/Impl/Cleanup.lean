import DeadlockInterceptor.Impl.Helpers

/-!
This module contains the last check of `cleanup_stuck_threads`, which looks for the state of a thread in the status
file below `/proc`. What the function does to the thread before is in `Impl.TracingResolution`.
-/

namespace DeadlockInterceptor

def hasLabel (label : Str) (line : Str) : Bool := line.take label.length = label

def strchr (line : Str) (c : Char) : Bool := (line.takeWhile (· ≠ '\x00')).contains c

def stateLabel : Str := ['S', 't', 'a', 't', 'e', ':']

/-- The first buffer with the label. A line that is longer than the buffer is read in several buffers. -/
def labelledLine (label : Str) (content : Str) : Option Str := (Text.buffers 254 content).find? (hasLabel label)

def isAlive (content : Str) : Bool :=
  match labelledLine stateLabel content with
  | some line => strchr line 'R' || strchr line 'S' || strchr line 'T'
  | none => false

def countsAsFailed (status : Option Str) : Bool :=
  match status with
  | some content => !isAlive content
  | none => false

end DeadlockInterceptor
