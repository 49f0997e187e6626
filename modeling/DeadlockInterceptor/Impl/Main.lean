import DeadlockInterceptor.Impl.Resolution

/-!
This module contains the loop of `main` over the stops of the traced threads. The requests that attach to the
threads, resume and detach them change none of the globals and are in `Impl.Tracing`.
-/

namespace DeadlockInterceptor

abbrev Status := BitVec 32

def wifexited (status : Status) : Bool := status &&& 0x7f = 0

/-- The byte `(status & 0x7f) + 1` is shifted as a `signed char`. -/
def wifsignaled (status : Status) : Bool :=
  0 < ((((status &&& 0x7f) + 1).setWidth 8).sshiftRight 1).toInt

def sigtrap : Status := 5

structure TurnEnv where
  tid : Pid
  status : Status
  /-- The answer to `tid_alive` in the loop, the handler asks again. -/
  tidAlive : Bool
  event : EventEnv

/--
The globals and `is_resolving`, which only the shutdown after the loop sets.
-/
structure MainState where
  world : World
  isResolving : Bool

namespace MainState

def init (memory : Memory) : MainState := ⟨⟨.init, memory⟩, false⟩

def turn (env : TurnEnv) (m : MainState) : Outcome MainState :=
  if env.tid ≤ 0 then
    .returned m
  else if !env.tidAlive then
    .returned m
  else if wifexited env.status || wifsignaled env.status then
    .returned m
  else if env.status.sshiftRight 8 = sigtrap ||| 0x80 then
    if !m.isResolving then
      match m.world.handleEvent env.event env.tid with
      | .returned w => .returned { m with world := w }
      | .thrown e w => .thrown e { m with world := w }
      | .undefined => .undefined
    else
      .returned m
  else
    .returned m

/-- An outcome that is not a return ends the loop. -/
def step (m : Outcome MainState) (env : TurnEnv) : Outcome MainState :=
  match m with
  | .returned m => m.turn env
  | .thrown e m => .thrown e m
  | .undefined => .undefined

def run (memory : Memory) (envs : List TurnEnv) : Outcome MainState :=
  envs.foldl step (.returned (init memory))

end MainState

end DeadlockInterceptor
