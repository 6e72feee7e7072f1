import Mathlib.Data.Finset.Card

/-! # The limits on agents

The model of `core/src/agent/control/execution.rs`. Every operation on the shared counter is
one step. -/

namespace OmniDoer.AgentControl

inductive MultiAgentVersion where
  | disabled
  | v1
  | v2
  deriving DecidableEq

/-- Where a session comes from. The sources other than sub-agents are treated alike. -/
inductive SessionSource where
  | subAgent
  | other
  deriving DecidableEq

structure AgentExecutionLimiter where
  active : ℕ := 0
  maxThreads : Option ℕ := none

namespace AgentExecutionLimiter

variable (limiter : AgentExecutionLimiter)

/-- `initialize`: the first limit stays. -/
def initializeLimit (maxThreads : ℕ) : AgentExecutionLimiter :=
  { limiter with maxThreads := some (limiter.maxThreads.getD maxThreads) }

/-- `max_threads()`, which is `usize::MAX` before a limit is set. -/
def limit : ℕ := limiter.maxThreads.getD (UInt64.size - 1)

def hasCapacity : Bool := limiter.active < limiter.limit

def guard : AgentExecutionLimiter := { limiter with active := limiter.active + 1 }

/-- The drop of an `AgentExecutionGuard`. -/
def dropGuard : AgentExecutionLimiter := { limiter with active := limiter.active - 1 }

end AgentExecutionLimiter

def isExecutionLimited (version : MultiAgentVersion) (source : SessionSource) : Bool :=
  version == .v2 && source == .subAgent

/-- The error is `AgentLimitReached` with the limit. -/
def ensureExecutionCapacity (limiter : AgentExecutionLimiter) (version : MultiAgentVersion)
    (source : SessionSource) : Except ℕ Unit :=
  if !isExecutionLimited version source then .ok ()
  else if limiter.hasCapacity then .ok ()
  else .error limiter.limit

/-- The limiter with one more guard, if there is to be one. -/
def executionGuard (limiter : AgentExecutionLimiter) (version : MultiAgentVersion)
    (source : SessionSource) : Option AgentExecutionLimiter :=
  if isExecutionLimited version source then some limiter.guard else none

/-- The turns of limited agents that have passed the check and those that hold a guard. -/
structure Turns (ι : Type) where
  limiter : AgentExecutionLimiter
  checked : Finset ι
  running : Finset ι

inductive TurnStep (ι : Type) where
  | check (turn : ι)
  | guard (turn : ι)
  | finish (turn : ι)

namespace Turns

variable {ι : Type} [DecidableEq ι]

def start (ι : Type) (maxThreads : ℕ) : Turns ι :=
  ⟨({} : AgentExecutionLimiter).initializeLimit maxThreads, ∅, ∅⟩

/-- A turn is checked before it takes its guard, and drops it at its end. -/
def step (s : Turns ι) : TurnStep ι → Turns ι
  | .check turn =>
    match ensureExecutionCapacity s.limiter .v2 .subAgent with
    | .ok _ => if turn ∈ s.running then s else { s with checked := insert turn s.checked }
    | .error _ => s
  | .guard turn =>
    match executionGuard s.limiter .v2 .subAgent with
    | some limiter =>
      if turn ∈ s.checked then ⟨limiter, s.checked.erase turn, insert turn s.running⟩ else s
    | none => s
  | .finish turn =>
    if turn ∈ s.running then
      { s with limiter := s.limiter.dropGuard, running := s.running.erase turn }
    else s

end Turns

end OmniDoer.AgentControl
