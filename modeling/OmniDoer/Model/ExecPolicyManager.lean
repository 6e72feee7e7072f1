import OmniDoer.Model.Bash
import OmniDoer.Model.ExecPolicy
import OmniDoer.Model.Permissions
import Mathlib.Data.List.Sort
import Mathlib.Data.Char
import Mathlib.Data.List.Lex

/-! # Approval of commands

The model of `codex-rs/core/src/exec_policy.rs`, of the builder in `execpolicy/src/parser.rs` and of
`amend.rs`: the rules that are loaded from files, what they and the heuristics decide about a
command, and how a prefix is added to them. What a rules file calls is told by an evaluator outside
the repository. -/

namespace OmniDoer.ExecPolicy

open Rust Unix Tables Permissions

/-- The calls that a rules file makes. -/
inductive RuleCall where
  | prefixRule (pattern : List PatternToken) (decision : Decision) (justification : Option Text)
      (matching notMatching : List (List Text))
  | networkRule (rule : NetworkRule)
  | hostExecutable (name : Text) (paths : List AbsolutePath)

def PatternToken.alternatives : PatternToken → List Text
  | .single expected => [expected]
  | .alts alternatives => alternatives

/-- A rule for each alternative of the first token. -/
def prefixRules (pattern : List PatternToken) (decision : Decision) (justification : Option Text) :
    List PrefixRule :=
  match pattern with
  | [] => []
  | firstToken :: rest => firstToken.alternatives.map fun head =>
    ⟨⟨head, rest⟩, decision, justification⟩

structure PendingExampleValidation where
  rules : List PrefixRule
  matching : List (List Text)
  notMatching : List (List Text)

structure PolicyBuilder where
  rulesByProgram : List (Text × PrefixRule) := []
  networkRules : List NetworkRule := []
  hostExecutablesByName : HostExecutables := .empty
  pendingExampleValidations : List PendingExampleValidation := []

def byProgram (rules : List PrefixRule) : List (Text × PrefixRule) :=
  rules.map fun rule => (rule.pattern.first, rule)

namespace PolicyBuilder

def call (builder : PolicyBuilder) : RuleCall → PolicyBuilder
  | .prefixRule pattern decision justification matching notMatching =>
    let rules := prefixRules pattern decision justification
    { builder with
      pendingExampleValidations :=
        builder.pendingExampleValidations ++ [⟨rules, matching, notMatching⟩]
      rulesByProgram := builder.rulesByProgram ++ byProgram rules }
  | .networkRule rule => { builder with networkRules := builder.networkRules ++ [rule] }
  | .hostExecutable name paths =>
    { builder with hostExecutablesByName := builder.hostExecutablesByName.insert (name, paths) }

/-- Whether the examples of a rule come out as they should, by the rule alone. -/
def validates (env : PathEnv) (hostExecutablesByName : HostExecutables)
    (validation : PendingExampleValidation) : Bool :=
  let policy : Policy := ⟨byProgram validation.rules, [], hostExecutablesByName⟩
  let isUnmatched (cmd : List Text) :=
    (policy.matchesForCommandWithOptions env cmd none ⟨true⟩).isEmpty
  validation.notMatching.all isUnmatched && validation.matching.all (!isUnmatched ·)

def build (builder : PolicyBuilder) : Policy :=
  ⟨builder.rulesByProgram, builder.networkRules, builder.hostExecutablesByName⟩

end PolicyBuilder

section Files

variable (env : PathEnv) (evaluate : Text → Option (List RuleCall))

/-- `PolicyParser::parse`: the examples of a file are tried when its calls have been made. -/
def parse (builder : PolicyBuilder) (contents : Text) : Option PolicyBuilder := do
  let calls ← evaluate contents
  let parsed := calls.foldl PolicyBuilder.call builder
  let fresh := parsed.pendingExampleValidations.drop builder.pendingExampleValidations.length
  if fresh.all (PolicyBuilder.validates env parsed.hostExecutablesByName) then some parsed else none

/-- The texts of the rules files of a directory, by name. -/
abbrev RulesDir := Table (Prod.fst : Text × Text → Text)

/-- The files in the order in which they are read. -/
def collectPolicyFiles (dir : RulesDir) : List Text := dir.sorted.rows.map Prod.snd

variable {π : Type} [DecidableEq π]

/-- A layer of the configuration; its folder may hold rules. -/
structure Layer (π : Type) where
  isUserOrProject : Bool
  configFolder : Option π

structure ConfigStack (π : Type) where
  layers : List (Layer π)
  ignoreUserAndProjectRules : Bool
  requirements : Option Policy

/-- The folders whose rules are read, in increasing order of precedence. -/
def ConfigStack.rulesFolders (stack : ConfigStack π) : List π :=
  (stack.layers.filter fun layer =>
    !(stack.ignoreUserAndProjectRules && layer.isUserOrProject)).filterMap
    (·.configFolder)

def loadExecPolicy (stack : ConfigStack π) (rulesDir : π → RulesDir) : Option Policy := do
  let texts := stack.rulesFolders.flatMap fun folder => collectPolicyFiles (rulesDir folder)
  let builder ← texts.foldlM (parse env evaluate) {}
  match stack.requirements with
  | none => return builder.build
  | some requirements => return builder.build.mergeOverlay requirements

end Files

/-- The line that allows a prefix; `jsonString` is serde's text of a string. -/
def allowPrefixLine (jsonString : Text → Text) (prefixTokens : List Text) : Text :=
  "prefix_rule(pattern=[".toList ++ ", ".toList.intercalate (prefixTokens.map jsonString) ++
    "], decision=\"allow\")".toList

/-- `append_locked_line`. -/
def appendLine (contents line : Text) : Text :=
  if line ∈ Rust.lines contents then contents
  else contents ++ (if contents ≠ [] ∧ contents.getLast? ≠ some '\n' then ['\n'] else []) ++
    line ++ ['\n']

def defaultPolicyFile : Text := "default.rules".toList

def appendToDir (dir : RulesDir) (line : Text) : RulesDir :=
  dir.insert (defaultPolicyFile,
    appendLine (((dir.lookup defaultPolicyFile).map Prod.snd).getD []) line)

def isPolicyMatch : RuleMatch → Bool
  | .prefixRuleMatch _ _ _ _ => true
  | .heuristicsRuleMatch _ _ => false

/-- Whether the rules allow a command already. -/
def alreadyAllowed (env : PathEnv) (policy : Policy) (command : List Text) : Bool :=
  match policy.checkMultipleWithOptions env [command] (fun _ => .forbidden) ⟨true⟩ with
  | some evaluation =>
    evaluation.decision = .allow &&
      evaluation.matchedRules.any fun m => isPolicyMatch m && m.decision = .allow
  | none => false

variable {π : Type} [DecidableEq π]

/-- `append_amendment_and_update`: the rules in memory and the files after an amendment that is
accepted. -/
def appendAmendmentAndUpdate (jsonString : Text → Text) (env : PathEnv) (policy : Policy)
    (rulesDir : π → RulesDir) (codexHome : π) (command : List Text) :
    Option (Policy × (π → RulesDir)) :=
  if command = [] then none
  else
    let rulesDir := Function.update rulesDir codexHome
      (appendToDir (rulesDir codexHome) (allowPrefixLine jsonString command))
    if alreadyAllowed env policy command then some (policy, rulesDir)
    else (policy.addPrefixRule command .allow).map (·, rulesDir)

structure ExecPolicyCommands where
  commands : List (List Text)
  usedComplexParsing : Bool

/-- The commands that a command line is judged by. -/
def commandsForExecPolicy (tryParseShell : Text → Option Bash.Tree) (command : List Text) :
    ExecPolicyCommands :=
  match Bash.parseShellLcPlainCommands tryParseShell command with
  | some (first :: rest) => ⟨first :: rest, false⟩
  | _ =>
    match Bash.parseShellLcSingleCommandPrefix tryParseShell command with
    | some single => ⟨[single], true⟩
    | none => ⟨[command], false⟩

structure GranularApprovalConfig where
  sandboxApproval : Bool
  rules : Bool
  deriving DecidableEq

inductive AskForApproval where
  | unlessTrusted
  | onRequest
  | granular (config : GranularApprovalConfig)
  | never
  deriving DecidableEq

inductive SandboxPermissions where
  | useDefault
  | requireEscalated
  | withAdditionalPermissions
  deriving DecidableEq

def SandboxPermissions.requestsSandboxOverride (permissions : SandboxPermissions) : Bool :=
  permissions ≠ .useDefault

inductive DangerousCommandMatch where
  | forcedRm
  | other
  deriving DecidableEq

/-- What is known about commands apart from the rules: the safe ones, the dangerous ones, and how
words are written as one line. -/
structure CommandKnowledge where
  isKnownSafe : List Text → Bool
  dangerousCommandMatch : List Text → Option DangerousCommandMatch
  renderShlexCommand : List Text → Text

structure UnmatchedCommandContext where
  approvalPolicy : AskForApproval
  sandboxKind : FileSystemSandboxKind
  sandboxPermissions : SandboxPermissions
  usedComplexParsing : Bool

/-- `render_decision_for_unmatched_command`, where there is no Windows sandbox. -/
def renderDecisionForUnmatchedCommand (knowledge : CommandKnowledge)
    (context : UnmatchedCommandContext)
    (command : List Text) : Decision :=
  if knowledge.isKnownSafe command ∧ ¬ context.usedComplexParsing ∧
      context.approvalPolicy = .unlessTrusted then
    .allow
  else if (knowledge.dangerousCommandMatch command).isSome then
    if context.approvalPolicy = .never then .forbidden else .prompt
  else
    match context.approvalPolicy with
    | .never => .allow
    | .unlessTrusted => .prompt
    | .onRequest | .granular _ =>
      match context.sandboxKind with
      | .unrestricted | .externalSandbox => .allow
      | .restricted =>
        if context.sandboxPermissions.requestsSandboxOverride then .prompt else .allow

def promptConflictReason : Text :=
  "approval required by policy, but AskForApproval is set to Never".toList

def rejectSandboxApprovalReason : Text :=
  "approval required by policy, but AskForApproval::Granular.sandbox_approval is false".toList

def rejectRulesApprovalReason : Text :=
  "approval required by policy rule, but AskForApproval::Granular.rules is false".toList

def promptIsRejectedByPolicy (approvalPolicy : AskForApproval) (promptIsRule : Bool) :
    Option Text :=
  match approvalPolicy with
  | .never => some promptConflictReason
  | .onRequest | .unlessTrusted => none
  | .granular config =>
    if promptIsRule then if config.rules then none else some rejectRulesApprovalReason
    else if config.sandboxApproval then none
    else some rejectSandboxApprovalReason

inductive ExecApprovalRequirement where
  | skip (bypassSandbox : Bool) (proposedAmendment : Option (List Text))
  | needsApproval (reason : Option Text) (proposedAmendment : Option (List Text))
  | forbidden (reason : Text)

/-- `max_by_key` over the length of the matched prefix: the last of the longest. -/
def mostSpecificMatch (decision : Decision) (matched : List RuleMatch) :
    Option (List Text × Option Text) :=
  (matched.filterMap fun
    | .prefixRuleMatch matchedPrefix d _ justification =>
      if d = decision then some (matchedPrefix, justification) else none
    | .heuristicsRuleMatch _ _ => none).foldl
    (fun best m => match best with
      | some b => if b.1.length ≤ m.1.length then some m else some b
      | none => some m) none

def dangerousCommandRejectionReason : DangerousCommandMatch → Text
  | .forcedRm => "rm -f style commands are not permitted. Use a safer approach".toList
  | .other => "blocked by policy".toList

/-- Text between backticks. -/
def quoteCommand (t : Text) : Text := "`".toList ++ t ++ "`".toList

def derivePromptReason (knowledge : CommandKnowledge) (commandArgs : List Text)
    (matched : List RuleMatch) : Option Text :=
  let command := quoteCommand (knowledge.renderShlexCommand commandArgs)
  (mostSpecificMatch .prompt matched).map fun
    | (_, some justification) => command ++ " requires approval: ".toList ++ justification
    | (_, none) => command ++ " requires approval by policy".toList

def deriveForbiddenReason (knowledge : CommandKnowledge) (commandArgs : List Text)
    (matched : List RuleMatch)
    (dangerous : Option DangerousCommandMatch) : Text :=
  let rejected := quoteCommand (knowledge.renderShlexCommand commandArgs) ++ " rejected: ".toList
  match mostSpecificMatch .forbidden matched with
  | some (_, some justification) => rejected ++ justification
  | some (matchedPrefix, none) =>
    rejected ++ "policy forbids commands starting with ".toList ++
      quoteCommand (knowledge.renderShlexCommand matchedPrefix)
  | none =>
    match dangerous with
    | some dangerous => rejected ++ dangerousCommandRejectionReason dangerous
    | none => rejected ++ "blocked by policy".toList

def deriveRejectedPromptReason (fallbackReason : Text)
    (dangerous : Option DangerousCommandMatch) : Text :=
  match dangerous with
  | some .forcedRm => dangerousCommandRejectionReason .forcedRm
  | some .other | none => fallbackReason

def dangerousCommandMatchForHeuristics (knowledge : CommandKnowledge) (matched : List RuleMatch)
    (decision : Decision) : Option DangerousCommandMatch :=
  matched.findSome? fun
    | .heuristicsRuleMatch command d =>
      if d = decision then knowledge.dangerousCommandMatch command else none
    | .prefixRuleMatch _ _ _ _ => none

def bannedPrefixSuggestions : List (List String) :=
  [["/bin/bash"], ["/bin/bash", "-c"], ["/bin/bash", "-lc"], ["/bin/sh"], ["/bin/sh", "-c"],
    ["/bin/sh", "-lc"], ["/bin/zsh"], ["/bin/zsh", "-c"], ["/bin/zsh", "-lc"], ["Rscript"],
    ["bash"], ["bash", "-c"], ["bash", "-lc"], ["bun"], ["bun", "-e"], ["bun", "run"], ["cmd"],
    ["cmd", "/c"], ["cmd", "/k"], ["cmd.exe"], ["cmd.exe", "/c"], ["cmd.exe", "/k"], ["dash"],
    ["dash", "-c"], ["deno"], ["deno", "eval"], ["env"], ["fish"], ["fish", "-c"], ["git"],
    ["julia"], ["julia", "-e"], ["ksh"], ["ksh", "-c"], ["lua"], ["lua", "-e"], ["node"],
    ["node", "-e"], ["nodejs"], ["nodejs", "-e"], ["npm", "run"], ["osascript"], ["perl"],
    ["perl", "-e"], ["php"], ["php", "-r"], ["pnpm", "run"], ["powershell"],
    ["powershell", "-Command"], ["powershell", "-EncodedCommand"], ["powershell", "-File"],
    ["powershell", "-c"], ["powershell.exe"], ["powershell.exe", "-Command"],
    ["powershell.exe", "-EncodedCommand"], ["powershell.exe", "-File"], ["powershell.exe", "-c"],
    ["pwsh"], ["pwsh", "-Command"], ["pwsh", "-EncodedCommand"], ["pwsh", "-File"], ["pwsh", "-c"],
    ["pwsh", "-e"], ["pwsh", "-ec"], ["pwsh", "-f"], ["py"], ["py", "-3"], ["pypy"], ["pypy3"],
    ["python"], ["python", "-"], ["python", "-c"], ["python3"], ["python3", "-"], ["python3", "-c"],
    ["pythonw"], ["pyw"], ["rm"], ["ruby"], ["ruby", "-e"], ["sh"], ["sh", "-c"], ["sh", "-lc"],
    ["sudo"], ["yarn", "run"], ["zsh"], ["zsh", "-c"], ["zsh", "-lc"]]

def isPolicyPrompt (m : RuleMatch) : Bool := isPolicyMatch m && m.decision = .prompt

/-- The first command that the heuristics decided so. -/
def firstHeuristicsCommand (decision : Decision) (matched : List RuleMatch) : Option (List Text) :=
  matched.findSome? fun
    | .heuristicsRuleMatch command d => if d = decision then some command else none
    | .prefixRuleMatch _ _ _ _ => none

def tryDeriveExecpolicyAmendmentForPromptRules (matched : List RuleMatch) : Option (List Text) :=
  if matched.any isPolicyPrompt then none else firstHeuristicsCommand .prompt matched

def tryDeriveExecpolicyAmendmentForAllowRules (matched : List RuleMatch) : Option (List Text) :=
  if matched.any isPolicyMatch then none else firstHeuristicsCommand .allow matched

def prefixRuleWouldApproveAllCommands (env : PathEnv) (policy : Policy) (prefixRule : List Text)
    (commands : List (List Text)) (fallback : List Text → Decision) : Bool :=
  match policy.addPrefixRule prefixRule .allow with
  | none => false
  | some policy => commands.all fun command =>
      (policy.checkWithOptions env command fallback ⟨true⟩).any (·.decision = .allow)

def deriveRequestedExecpolicyAmendmentFromPrefixRule (env : PathEnv)
    (prefixRule : Option (List Text)) (matched : List RuleMatch) (policy : Policy)
    (commands : List (List Text)) (fallback : List Text → Decision) : Option (List Text) := do
  let prefixRule ← prefixRule
  if prefixRule = [] then none
  else if prefixRule ∈ bannedPrefixSuggestions.map (·.map String.toList) then none
  else if matched.any isPolicyMatch then none
  else if prefixRuleWouldApproveAllCommands env policy prefixRule commands fallback then
    some prefixRule
  else none

structure ExecApprovalRequest where
  command : List Text
  approvalPolicy : AskForApproval
  sandboxKind : FileSystemSandboxKind
  sandboxPermissions : SandboxPermissions
  prefixRule : Option (List Text)

/-- `create_exec_approval_requirement_for_command`; nothing is given where the evaluation
panics. -/
def createExecApprovalRequirementForCommand (env : PathEnv)
    (tryParseShell : Text → Option Bash.Tree)
    (knowledge : CommandKnowledge) (policy : Policy) (req : ExecApprovalRequest) :
    Option ExecApprovalRequirement := do
  let parsed := commandsForExecPolicy tryParseShell req.command
  let autoAmendmentAllowed := !parsed.usedComplexParsing
  let fallback := renderDecisionForUnmatchedCommand knowledge
    ⟨req.approvalPolicy, req.sandboxKind, req.sandboxPermissions, parsed.usedComplexParsing⟩
  let evaluation ← policy.checkMultipleWithOptions env parsed.commands fallback ⟨true⟩
  let matched := evaluation.matchedRules
  let requestedAmendment :=
    if autoAmendmentAllowed then
      deriveRequestedExecpolicyAmendmentFromPrefixRule env req.prefixRule matched policy
        parsed.commands fallback
    else none
  match evaluation.decision with
  | .forbidden =>
    return .forbidden (deriveForbiddenReason knowledge req.command matched
      (dangerousCommandMatchForHeuristics knowledge matched .forbidden))
  | .prompt =>
    let promptIsRule := matched.any isPolicyPrompt
    match promptIsRejectedByPolicy req.approvalPolicy promptIsRule with
    | some reason =>
      if promptIsRule then return .forbidden reason
      else
        return .forbidden (deriveRejectedPromptReason reason
          (dangerousCommandMatchForHeuristics knowledge matched .prompt))
    | none =>
      return .needsApproval (derivePromptReason knowledge req.command matched)
        (requestedAmendment.or
          (if autoAmendmentAllowed then tryDeriveExecpolicyAmendmentForPromptRules matched
          else none))
  | .allow =>
    return .skip (parsed.commands.all fun command =>
        (policy.matchesForCommandWithOptions env command none ⟨true⟩).any fun m =>
          isPolicyMatch m && m.decision = .allow)
      (if autoAmendmentAllowed then tryDeriveExecpolicyAmendmentForAllowRules matched else none)

end OmniDoer.ExecPolicy
