import OmniDoer.Library.Table
import OmniDoer.Model.AbsolutePath
import Mathlib.Order.Lattice
import Mathlib.Order.Defs.LinearOrder

/-! # Rules for commands

The model of `codex-rs/execpolicy/src/policy.rs`, `rule.rs` and `decision.rs`: prefix rules by
program, how a command is matched against them, and how two policies are laid over each other. -/

namespace OmniDoer.ExecPolicy

open Rust Unix Tables

inductive Decision where
  | allow
  | prompt
  | forbidden
  deriving DecidableEq

namespace Decision

def rank : Decision → ℕ
  | .allow => 0
  | .prompt => 1
  | .forbidden => 2

theorem rank_injective : Function.Injective rank := by
  intro a b h
  cases a <;> cases b <;> first | rfl | cases h

instance : LinearOrder Decision := LinearOrder.lift' rank rank_injective

theorem allow_le (d : Decision) : allow ≤ d := Nat.zero_le _

theorem le_allow {d : Decision} : d ≤ allow ↔ d = allow := by
  cases d <;> decide

theorem forbidden_le {d : Decision} : forbidden ≤ d ↔ d = forbidden := by
  cases d <;> decide

end Decision

inductive PatternToken where
  | single (expected : Text)
  | alts (alternatives : List Text)
  deriving DecidableEq

def PatternToken.matches : PatternToken → Text → Bool
  | .single expected, token => expected = token
  | .alts alternatives, token => token ∈ alternatives

structure PrefixPattern where
  first : Text
  rest : List PatternToken
  deriving DecidableEq

/-- The part of the command that the pattern covers. -/
def PrefixPattern.matchesPrefix (pattern : PrefixPattern) (cmd : List Text) : Option (List Text) :=
  let patternLength := pattern.rest.length + 1
  if cmd.length < patternLength ∨ cmd.head? ≠ some pattern.first then none
  else if (pattern.rest.zip (cmd.drop 1)).all fun (token, word) => token.matches word then
    some (cmd.take patternLength)
  else none

inductive RuleMatch where
  | prefixRuleMatch (matchedPrefix : List Text) (decision : Decision)
      (resolvedProgram : Option AbsolutePath) (justification : Option Text)
  | heuristicsRuleMatch (command : List Text) (decision : Decision)
  deriving DecidableEq

def RuleMatch.decision : RuleMatch → Decision
  | .prefixRuleMatch _ decision _ _ => decision
  | .heuristicsRuleMatch _ decision => decision

def RuleMatch.withResolvedProgram (resolvedProgram : AbsolutePath) : RuleMatch → RuleMatch
  | .prefixRuleMatch matchedPrefix decision _ justification =>
    .prefixRuleMatch matchedPrefix decision (some resolvedProgram) justification
  | other => other

structure PrefixRule where
  pattern : PrefixPattern
  decision : Decision
  justification : Option Text
  deriving DecidableEq

def PrefixRule.matches (rule : PrefixRule) (cmd : List Text) : Option RuleMatch :=
  (rule.pattern.matchesPrefix cmd).map fun matchedPrefix =>
    .prefixRuleMatch matchedPrefix rule.decision none rule.justification

inductive NetworkRuleProtocol where
  | http
  | https
  | socks5Tcp
  | socks5Udp
  deriving DecidableEq

structure NetworkRule where
  host : Text
  protocol : NetworkRuleProtocol
  decision : Decision
  justification : Option Text
  deriving DecidableEq

/-- The paths an executable of a name may have. -/
abbrev HostExecutables := Table (Prod.fst : Text × List AbsolutePath → Text)

/-- Rules are kept by program, in the order in which they were added. -/
structure Policy where
  rulesByProgram : List (Text × PrefixRule)
  networkRules : List NetworkRule
  hostExecutablesByName : HostExecutables

structure Evaluation where
  decision : Decision
  matchedRules : List RuleMatch

/-- `Evaluation::from_matches`, which panics without a match. -/
def Evaluation.fromMatches (matchedRules : List RuleMatch) : Option Evaluation :=
  (matchedRules.map RuleMatch.decision).max?.map fun decision => { decision, matchedRules }

namespace Policy

def empty : Policy := ⟨[], [], .empty⟩

/-- `rules_by_program.get_vec(program)`. -/
def getVec (policy : Policy) (program : Text) : List PrefixRule :=
  (policy.rulesByProgram.filter (·.1 = program)).map Prod.snd

def addPrefixRule (policy : Policy) (prefixTokens : List Text) (decision : Decision) :
    Option Policy :=
  match prefixTokens with
  | [] => none
  | firstToken :: rest =>
    let rule := ⟨⟨firstToken, rest.map .single⟩, decision, none⟩
    some { policy with rulesByProgram := policy.rulesByProgram ++ [(firstToken, rule)] }

/-- The rules of both, and for an executable the paths of the overlay if it has any. -/
def mergeOverlay (policy overlay : Policy) : Policy where
  rulesByProgram := policy.rulesByProgram ++ overlay.rulesByProgram
  networkRules := policy.networkRules ++ overlay.networkRules
  hostExecutablesByName :=
    overlay.hostExecutablesByName.rows.foldl Table.insert policy.hostExecutablesByName

def matchExactRules (policy : Policy) (cmd : List Text) : List RuleMatch :=
  match cmd with
  | [] => []
  | first :: _ => (policy.getVec first).filterMap (·.matches cmd)

section Matching

variable (env : PathEnv)

/-- The program a command names, if it has a name to look rules up by. -/
def resolveProgram (cmd : List Text) : Option (AbsolutePath × Text) := do
  let program ← env.fromAbsolutePath (← cmd.head?)
  let basename ← program.getLast?
  return (program, basename)

/-- Whether the rules for a name count for a program. -/
def mayResolve (policy : Policy) (basename : Text) (program : AbsolutePath) : Bool :=
  match policy.hostExecutablesByName.lookup basename with
  | some (_, paths) => program ∈ paths
  | none => true

def matchHostExecutableRules (policy : Policy) (cmd : List Text) : List RuleMatch :=
  match resolveProgram env cmd with
  | none => []
  | some (program, basename) =>
    if policy.mayResolve basename program then
      ((policy.getVec basename).filterMap (·.matches (basename :: cmd.drop 1))).map
        (RuleMatch.withResolvedProgram program)
    else []

structure MatchOptions where
  resolveHostExecutables : Bool := false

/-- The rules that match, before any heuristics. -/
def matchedRules (policy : Policy) (cmd : List Text) (options : MatchOptions) : List RuleMatch :=
  match policy.matchExactRules cmd with
  | [] => if options.resolveHostExecutables then policy.matchHostExecutableRules env cmd else []
  | exact => exact

def matchesForCommandWithOptions (policy : Policy) (cmd : List Text)
    (heuristicsFallback : Option (List Text → Decision)) (options : MatchOptions) :
    List RuleMatch :=
  match policy.matchedRules env cmd options, heuristicsFallback with
  | [], some heuristics => [.heuristicsRuleMatch cmd (heuristics cmd)]
  | matched, _ => matched

def checkWithOptions (policy : Policy) (cmd : List Text) (heuristicsFallback : List Text → Decision)
    (options : MatchOptions) : Option Evaluation :=
  Evaluation.fromMatches
    (policy.matchesForCommandWithOptions env cmd (some heuristicsFallback) options)

def checkMultipleWithOptions (policy : Policy) (commands : List (List Text))
    (heuristicsFallback : List Text → Decision) (options : MatchOptions) : Option Evaluation :=
  Evaluation.fromMatches <| commands.flatMap fun command =>
    policy.matchesForCommandWithOptions env command (some heuristicsFallback) options

end Matching

end Policy

end OmniDoer.ExecPolicy
