import OmniDoer.Model.ExecPolicyManager
import OmniDoer.Verification.ExecPolicy.Overlay

/-! # Commands that run without the sandbox

A command line is judged by its segments. The strictest match of all of them decides, and the
sandbox is left out only when rules, and not the heuristics, allow every segment. -/

namespace OmniDoer.ExecPolicy

open Rust ExecPolicy.Policy List

section Segments

variable {env : PathEnv} {policy : Policy} {commands : List (List Text)}
  {fallback : List Text → Decision}

theorem commandsForExecPolicy_ne_nil (tryParseShell : Text → Option Bash.Tree)
    (command : List Text) :
    (commandsForExecPolicy tryParseShell command).commands ≠ [] := by
  unfold commandsForExecPolicy
  split
  · exact cons_ne_nil _ _
  · split <;> exact cons_ne_nil _ _

variable (env policy fallback) in
theorem checkMultiple_spec (hne : commands ≠ []) :
    ∃ evaluation, policy.checkMultipleWithOptions env commands fallback ⟨true⟩ = some evaluation ∧
      ∀ d, d ≤ evaluation.decision ↔
        ∃ c ∈ commands, ∃ m ∈ policy.matchesForCommandWithOptions env c (some fallback) ⟨true⟩, d ≤
          m.decision := by
  set matched :=
    commands.flatMap fun c => policy.matchesForCommandWithOptions env c (some fallback) ⟨true⟩
    with hmatched
  obtain ⟨c, rest, rfl⟩ := exists_cons_of_ne_nil hne
  obtain ⟨first, hfirst⟩ := exists_mem_of_ne_nil _
    (matchesForCommandWithOptions_ne_nil policy fallback
      ⟨true⟩ : policy.matchesForCommandWithOptions env c _ _ ≠ [])
  have hmem : first ∈ matched := mem_flatMap.2 ⟨c, mem_cons_self, hfirst⟩
  have hle : ∀ d, _ ↔ ∃ m ∈ matched, d ≤ m.decision := fun d => fromMatches_le (ne_nil_of_mem hmem)
  obtain ⟨evaluation, hevaluation, -⟩ := (hle .allow).2 ⟨first, hmem, Decision.allow_le _⟩
  refine ⟨evaluation, hevaluation, fun d => ?_⟩
  have hd := hle d
  simp only [hevaluation, Option.some.injEq, exists_eq_left'] at hd
  rw [hd, hmatched]
  constructor
  · rintro ⟨m, hm, hdm⟩
    obtain ⟨c, hc, hm⟩ := mem_flatMap.1 hm
    exact ⟨c, hc, m, hm, hdm⟩
  · rintro ⟨c, hc, m, hm, hdm⟩
    exact ⟨m, mem_flatMap.2 ⟨c, hc, hm⟩, hdm⟩

end Segments

/-- What a decision asks for; `ruled` tells whether rules allow every segment. -/
inductive Requires (ruled : Bool) : Decision → ExecApprovalRequirement → Prop where
  | forbidden (reason : Text) : Requires ruled .forbidden (.forbidden reason)
  | rejected (reason : Text) : Requires ruled .prompt (.forbidden reason)
  | prompt (reason : Option Text) (amendment : Option (List Text)) :
      Requires ruled .prompt (.needsApproval reason amendment)
  | allow (amendment : Option (List Text)) : Requires ruled .allow (.skip ruled amendment)

section Requirements

variable (env : PathEnv) (tryParseShell : Text → Option Bash.Tree) (knowledge : CommandKnowledge)
  (policy : Policy)
  (req : ExecApprovalRequest)

def ExecApprovalRequest.fallback : List Text → Decision :=
  renderDecisionForUnmatchedCommand knowledge ⟨req.approvalPolicy, req.sandboxKind,
    req.sandboxPermissions, (commandsForExecPolicy tryParseShell req.command).usedComplexParsing⟩

def ruledAllow (commands : List (List Text)) : Bool :=
  commands.all fun command =>
    (policy.matchesForCommandWithOptions env command none ⟨true⟩).any fun m => isPolicyMatch m &&
      m.decision = .allow

theorem requirement_spec :
    ∃ decision requirement,
      createExecApprovalRequirementForCommand env tryParseShell knowledge policy req =
        some requirement ∧
      Requires (ruledAllow env policy
        (commandsForExecPolicy tryParseShell req.command).commands) decision
        requirement ∧
      ∀ d, d ≤ decision ↔ ∃ c ∈ (commandsForExecPolicy tryParseShell req.command).commands,
        ∃ m ∈ policy.matchesForCommandWithOptions env c
          (some (req.fallback tryParseShell knowledge)) ⟨true⟩,
          d ≤ m.decision := by
  obtain ⟨evaluation, hevaluation, hle⟩ :=
    checkMultiple_spec env policy (req.fallback tryParseShell knowledge)
    (commandsForExecPolicy_ne_nil tryParseShell req.command)
  rw [ExecApprovalRequest.fallback] at hevaluation
  refine ⟨evaluation.decision, ?_⟩
  rw [createExecApprovalRequirementForCommand, hevaluation]
  simp only [Option.bind_eq_bind, Option.bind_some]
  generalize evaluation.decision = decision at hle ⊢
  cases decision with
  | forbidden => exact ⟨_, rfl, .forbidden _, hle⟩
  | prompt =>
    dsimp only
    split
    · split <;> exact ⟨_, rfl, .rejected _, hle⟩
    · exact ⟨_, rfl, .prompt _ _, hle⟩
  | allow => exact ⟨_, rfl, .allow _, hle⟩

end Requirements

/-- The sandbox is left out only when every segment is matched by rules and all of them allow it; a
rule that forbids a segment forbids the whole; and there is always a decision. -/
theorem bypass_only_when_allowed (env : PathEnv) (tryParseShell : Text → Option Bash.Tree)
    (knowledge : CommandKnowledge) (policy : Policy) (req : ExecApprovalRequest) :
    (commandsForExecPolicy tryParseShell req.command).commands ≠ [] ∧
    ∃ requirement,
      createExecApprovalRequirementForCommand env tryParseShell knowledge policy req =
        some requirement ∧
      (∀ amendment, requirement = .skip true amendment →
        ∀ c ∈ (commandsForExecPolicy tryParseShell req.command).commands,
          (∃ m ∈ policy.matchesForCommandWithOptions env c none ⟨true⟩, isPolicyMatch m = true) ∧
          ∀ m ∈ policy.matchesForCommandWithOptions env c none ⟨true⟩, m.decision = .allow) ∧
      ((∃ c ∈ (commandsForExecPolicy tryParseShell req.command).commands,
          ∃ m ∈ policy.matchesForCommandWithOptions env c none ⟨true⟩, m.decision = .forbidden) →
        ∃ reason, requirement = .forbidden reason) := by
  refine ⟨commandsForExecPolicy_ne_nil tryParseShell req.command, ?_⟩
  obtain ⟨decision, requirement, hcreate, hrequires, hle⟩ :=
    requirement_spec env tryParseShell knowledge policy req
  have hruled : ∀ c ∈ (commandsForExecPolicy tryParseShell req.command).commands,
      ∀ m ∈ policy.matchesForCommandWithOptions env c none ⟨true⟩, m.decision ≤ decision := by
    intro c hc m hm
    refine (hle _).2 ⟨c, hc, m, ?_, le_rfl⟩
    rw [matchesForCommandWithOptions_none] at hm
    rwa [matchesForCommandWithOptions_of_ne_nil (ne_nil_of_mem hm)]
  refine ⟨requirement, hcreate, ?_, ?_⟩
  · rintro amendment rfl c hc
    generalize hall : ruledAllow _ _ _ = ruled at hrequires
    cases hrequires
    obtain ⟨m, hm, hpolicy⟩ := any_eq_true.1 (all_eq_true.1 hall c hc)
    exact ⟨⟨m, hm, (Bool.and_eq_true_iff.1 hpolicy).1⟩,
      fun m hm => Decision.le_allow.1 (hruled c hc m hm)⟩
  · rintro ⟨c, hc, m, hm, hforbidden⟩
    have hdecision := hruled c hc m hm
    rw [hforbidden, Decision.forbidden_le] at hdecision
    subst hdecision
    cases hrequires
    exact ⟨_, rfl⟩

end OmniDoer.ExecPolicy
