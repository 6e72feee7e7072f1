import OmniDoer.Model.Orchestrator
import OmniDoer.Verification.ExecPolicy.Bypass

/-! # Leaving the sandbox

Who has agreed to an attempt without the sandbox. What an attempt must have behind it is a contract
of the orchestrator's program, over every answer of the reviewers and of the tool. -/

namespace OmniDoer.Orchestrator

open Rust Permissions ExecPolicy Effects

variable {δ Out : Type}

section Meets

variable {γ : Type} {c : Prog.Contract Op (Op.Answer δ Out) γ} {g : γ}

theorem meets_approve {stage : Stage} {reviewer : ApprovalReviewer} {ctx : ApprovalCtx}
    {k : Unit → Run δ Out Out} :
    (approve stage reviewer ctx >>= k).Meets c (fun _ _ => True) g ↔
      c.guar g (.approve stage reviewer ctx) ∧
      (c.rely (.approve stage reviewer ctx) (Except.ok ()) →
        (k ()).Meets c (fun _ _ => True)
          (c.next g (.approve stage reviewer ctx) (Except.ok ()))) := by
  refine and_congr_right fun _ => ⟨fun h hx => h _ hx, fun h x hx => ?_⟩
  match x with
  | .error e => exact trivial
  | .ok () => exact h hx

variable {turn : Turn} {tool : Tool}

theorem meets_approveFirst {requirement : ExecApprovalRequirement} {k : Bool → Run δ Out Out} :
    (turn.approveFirst requirement >>= k).Meets c (fun _ _ => True) g ↔
      let approved (o : Op) (ok : o.Answer δ Out) :=
        c.guar g o ∧ (c.rely o ok → (k true).Meets c (fun _ _ => True) (c.next g o ok))
      match requirement with
      | .skip _ _ =>
        if turn.strictAutoReview then
          approved (.approve .first .guardian ⟨none, none⟩) (Except.ok ())
        else (k false).Meets c (fun _ _ => True) g
      | .needsApproval reason _ =>
        approved (.approve .first turn.reviewerInUse ⟨reason, none⟩) (Except.ok ())
      | .forbidden _ => True := by
  cases requirement with
  | skip bypass amendment =>
    rw [Turn.approveFirst]
    split
    · rw [Prog.bind_assoc, meets_approve]
      rfl
    · rfl
  | needsApproval reason amendment =>
    rw [Turn.approveFirst, Prog.bind_assoc, meets_approve]
    rfl
  | forbidden reason => exact iff_of_true trivial trivial

theorem meets_first {approved : Bool} {requested : Bool} :
    (attempt .first requested >>= turn.afterFirst tool approved : Run δ Out Out).Meets c
      (fun _ _ => True) g ↔
      let first := Op.attempt .first requested
      c.guar g first ∧ ∀ output decision, c.rely first (Except.error (.denied output decision)) →
        (turn.afterDenial tool approved output decision : Run δ Out Out).Meets c (fun _ _ => True)
          (c.next g first (Except.error (.denied output decision))) := by
  refine and_congr_right fun _ => ⟨fun h output decision hx => h _ hx, fun h x hx => ?_⟩
  match x with
  | .error (.denied output decision) => exact h output decision hx
  | .ok _ | .error (.rejected _) | .error (.codex _) => exact trivial

def Retries (turn : Turn) (tool : Tool) (decision : Option NetworkPolicyDecisionPayload) : Prop :=
  (decision.isSome → (turn.networkContext decision).isSome) ∧ tool.escalateOnFailure ∧
  (tool.wantsNoSandboxApproval turn.approvalPolicy ∨
    turn.allowOnRequestNetworkPrompt (turn.networkContext decision)) ∧
  (turn.fileSystem.hasDeniedReadRestrictions → (turn.networkContext decision).isSome)

/-- How the second attempt is approved, and what is asked of it. -/
theorem meets_afterDenial {approved : Bool} {output : δ}
    {decision : Option NetworkPolicyDecisionPayload} :
    (turn.afterDenial tool approved output decision : Run δ Out Out).Meets c (fun _ _ => True) g ↔
      (Retries turn tool decision →
        let context := turn.networkContext decision
        let retry := Op.attempt .retry (!unsandboxedExecutionAllowed turn.fileSystem &&
            turn.shouldSandbox tool)
        let asked := Op.approve .retry turn.reviewerInUse ⟨some (Turn.retryReason context), context⟩
        if !turn.strictAutoReview && tool.shouldBypassApproval turn.approvalPolicy approved &&
            context.isNone then
          c.guar g retry
        else c.guar g asked ∧
          (c.rely asked (Except.ok ()) → c.guar (c.next g asked (Except.ok ())) retry)) := by
  have hstop : ∀ {P : Prop}, ¬ Retries turn tool decision →
      ((Prog.raise (.denied output decision) : Run δ Out Out).Meets c (fun _ _ => True) g ↔
        (Retries turn tool decision → P)) := fun hnot => iff_of_true trivial fun h => absurd h hnot
  unfold Turn.afterDenial
  simp only []
  split
  · rename_i h
    simp only [Bool.and_eq_true, Option.isNone_iff_eq_none] at h
    exact hstop fun hr => by simpa [h.2] using hr.1 h.1
  split
  · rename_i h
    exact hstop fun hr => by simp [hr.2.1] at h
  split
  · rename_i h
    exact hstop fun hr => by
      rcases hr.2.2.1 with hw | hw <;> simp [hw] at h
  split
  · rename_i h
    simp only [unsandboxedExecutionAllowed, Bool.not_not, Bool.and_eq_true,
      Option.isNone_iff_eq_none] at h
    exact hstop fun hr => by simpa [h.2] using hr.2.2.2 h.1
  rename_i h₁ h₂ h₃ h₄
  have hretries : Retries turn tool decision := by
    refine ⟨fun h => ?_, by simpa using h₂, ?_, fun h => ?_⟩
    · simpa [h, Option.isSome_iff_ne_none] using h₁
    · simpa [Classical.or_iff_not_imp_left] using h₃
    · simpa [h, unsandboxedExecutionAllowed, Option.isSome_iff_ne_none] using h₄
  simp only [hretries, forall_const]
  split
  · rename_i hbypass
    rw [if_neg (Bool.eq_false_iff.1 (Bool.not_eq_true' _ ▸ hbypass)), meets_approve]
    exact and_congr_right fun _ => imp_congr_right fun _ => and_iff_left fun x _ => by cases x <;>
      exact trivial
  · rename_i hbypass
    rw [if_pos (by simpa using hbypass)]
    exact and_iff_left fun x _ => by cases x <;> exact trivial

theorem allowOnRequestNetworkPrompt_iff {context : Option NetworkApprovalContext} :
    turn.allowOnRequestNetworkPrompt context = true ↔
      turn.approvalPolicy = .onRequest ∧ context.isSome = true ∧
        turn.fileSystem.kind = .restricted := by
  unfold Turn.allowOnRequestNetworkPrompt
  by_cases hpolicy : turn.approvalPolicy = .onRequest
  · by_cases hkind : turn.fileSystem.kind = .restricted <;>
      simp [hpolicy, hkind, defaultExecApprovalRequirement]
  · simp [hpolicy]

theorem networkContext_eq_some_iff {decision : Option NetworkPolicyDecisionPayload}
    {context : NetworkApprovalContext} :
    turn.networkContext decision = some context ↔ turn.managedNetworkActive = true ∧
      ∃ payload, decision = some payload ∧
        networkApprovalContextFromPayload payload = some context := by
  unfold Turn.networkContext
  cases turn.managedNetworkActive <;> simp [Option.bind_eq_some_iff]

end Meets

section Retry

variable (turn : Turn) (tool : Tool) (answers : (o : Op) → o.Answer δ Out)

/-- A second attempt stays in the sandbox that the profile asks for. -/
def retrySandboxed : Prog.Contract Op (Op.Answer δ Out) Unit where
  guar := fun _ o => ∀ requested, o = .attempt .retry requested → turn.shouldSandbox tool = true →
    requested = true
  rely := fun o x => x = answers o
  next := fun _ _ _ => ()

/-- No reviewer stands in the way of the first attempt. -/
def Admitted : Prop :=
  match turn.requirement tool with
  | .skip _ _ =>
    turn.strictAutoReview = true → answers (.approve .first .guardian ⟨none, none⟩) = Except.ok ()
  | .needsApproval reason _ =>
    answers (.approve .first turn.reviewerInUse ⟨reason, none⟩) = Except.ok ()
  | .forbidden _ => False

/-- The first attempt is denied over a host that the policy asks about, and the host is approved. -/
def HostApproved : Prop :=
  ∃ output payload context,
    answers (.attempt .first (turn.firstSandboxRequested tool)) =
      Except.error (.denied output (some payload)) ∧
    networkApprovalContextFromPayload payload = some context ∧
    answers (.approve .retry turn.reviewerInUse
      ⟨some (Turn.retryReason (some context)), some context⟩) = Except.ok ()

variable {turn tool answers}

theorem meets_run_iff {Q : δ → Option NetworkPolicyDecisionPayload → Prop}
    (hQ : ∀ approved output decision, (turn.afterDenial tool approved output decision).Meets
      (retrySandboxed turn tool answers) (fun _ _ => True) () ↔ Q output decision) :
    (turn.run tool).Meets (retrySandboxed turn tool answers) (fun _ _ => True) () ↔
      (Admitted turn tool answers → ∀ output decision,
        answers (.attempt .first (turn.firstSandboxRequested tool)) =
          Except.error (.denied output decision) →
        Q output decision) := by
  have hfirst : ∀ approved, (attempt .first (turn.firstSandboxRequested tool) >>=
      turn.afterFirst tool approved).Meets
      (retrySandboxed turn tool answers) (fun _ _ => True) () ↔ ∀ output decision,
        answers (.attempt .first (turn.firstSandboxRequested tool)) =
          Except.error (.denied output decision) →
        Q output decision := by
    intro approved
    rw [meets_first]
    constructor
    · rintro ⟨-, h⟩ output decision hdenied
      exact (hQ approved output decision).1 (h output decision hdenied.symm)
    · intro h
      exact ⟨fun _ h => (nomatch h),
        fun output decision hx => (hQ approved output decision).2 (h output decision hx.symm)⟩
  rw [Turn.run, meets_approveFirst, Admitted]
  cases turn.requirement tool with
  | skip bypass amendment =>
    cases turn.strictAutoReview with
    | false =>
      exact ⟨fun h _ => (hfirst false).1 h, fun h => (hfirst false).2 (h fun hf => (nomatch hf))⟩
    | true =>
      exact ⟨fun h ha => (hfirst true).1 (h.2 (ha rfl).symm),
        fun h => ⟨fun _ h => (nomatch h), fun ha => (hfirst true).2 (h fun _ => ha.symm)⟩⟩
  | needsApproval reason amendment =>
    exact ⟨fun h ha => (hfirst true).1 (h.2 ha.symm),
      fun h => ⟨fun _ h => (nomatch h), fun ha => (hfirst true).2 (h ha.symm)⟩⟩
  | forbidden reason => exact ⟨fun _ h => h.elim, fun _ => trivial⟩

theorem meets_afterDenial_iff (hwants : tool.wantsNoSandboxApproval turn.approvalPolicy = false)
    (approved : Bool) (output : δ) (decision : Option NetworkPolicyDecisionPayload) :
    (turn.afterDenial tool approved output decision).Meets (retrySandboxed turn tool answers)
      (fun _ _ => True) () ↔
      ¬ (turn.approvalPolicy = .onRequest ∧ turn.fileSystem.kind = .restricted ∧
        turn.fileSystem.hasDeniedReadRestrictions = false ∧ turn.shouldSandbox tool = true ∧
        turn.managedNetworkActive = true ∧ tool.escalateOnFailure = true ∧
        ∃ payload context, decision = some payload ∧
          networkApprovalContextFromPayload payload = some context ∧
          answers (.approve .retry turn.reviewerInUse
            ⟨some (Turn.retryReason (some context)), some context⟩) = Except.ok ()) := by
  rw [meets_afterDenial]
  constructor
  · rintro h ⟨hpolicy, hkind, hreads, hshould, hmanaged, hescalate, payload, context, rfl,
      hcontext, hok⟩
    have hsome := networkContext_eq_some_iff.2 ⟨hmanaged, payload, rfl, hcontext⟩
    have hretries : Retries turn tool (some payload) := by
      refine ⟨fun _ => hsome ▸ rfl, hescalate, .inr ?_, fun _ => hsome ▸ rfl⟩
      exact allowOnRequestNetworkPrompt_iff.2 ⟨hpolicy, hsome ▸ rfl, hkind⟩
    have hretry := h hretries
    simp only [hsome, Option.isNone_some, Bool.and_false] at hretry
    have hrequested := hretry.2 (by rw [hsome]; exact hok.symm) _ rfl hshould
    simp [unsandboxedExecutionAllowed, hreads] at hrequested
  · intro hnot hretries
    obtain ⟨-, hescalate, hprompt, -⟩ := hretries
    obtain ⟨hpolicy, hcontext, hkind⟩ :=
      allowOnRequestNetworkPrompt_iff.1 (hprompt.resolve_left (by simp [hwants]))
    obtain ⟨context, hsome⟩ := Option.isSome_iff_exists.1 hcontext
    obtain ⟨hmanaged, payload, hpayload, hfrom⟩ := networkContext_eq_some_iff.1 hsome
    simp only [hsome, Option.isNone_some, Bool.and_false]
    refine ⟨fun _ h => (nomatch h), fun hok requested hrequested hshould => ?_⟩
    cases hreads : turn.fileSystem.hasDeniedReadRestrictions with
    | false =>
      rw [hsome] at hok
      exact absurd ⟨hpolicy, hkind, hreads, hshould, hmanaged, hescalate, payload, context,
        hpayload, hfrom, hok.symm⟩
        hnot
    | true =>
      cases hrequested
      simp [unsandboxedExecutionAllowed, hreads, hshould]

end Retry

/-- Under `Never` and `OnRequest` a second attempt leaves the sandbox just where a host is asked
about and approved, and no reads are denied. -/
theorem retry_sandboxed_iff (turn : Turn) (tool : Tool) (answers : (o : Op) → o.Answer δ Out)
    (hwants : tool.wantsNoSandboxApproval = defaultWantsNoSandboxApproval)
    (hpolicy : turn.approvalPolicy = .never ∨ turn.approvalPolicy = .onRequest) :
    (turn.run tool).Meets (retrySandboxed turn tool answers) (fun _ _ => True) () ↔
      ¬ (turn.approvalPolicy = .onRequest ∧ turn.fileSystem.kind = .restricted ∧
        turn.fileSystem.hasDeniedReadRestrictions = false ∧ turn.shouldSandbox tool = true ∧
        turn.managedNetworkActive = true ∧ tool.escalateOnFailure = true ∧
        Admitted turn tool answers ∧ HostApproved turn tool answers) := by
  have hdefault : tool.wantsNoSandboxApproval turn.approvalPolicy = false := by
    rcases hpolicy with h | h <;> rw [hwants, h] <;> rfl
  rw [meets_run_iff (meets_afterDenial_iff hdefault)]
  constructor
  · rintro h ⟨honRequest, hkind, hreads, hshould, hmanaged, hescalate, hadmitted, output, payload,
      context, hdenied, hcontext, hok⟩
    exact h hadmitted output _ hdenied
      ⟨honRequest, hkind, hreads, hshould, hmanaged, hescalate, payload, context, rfl,
        hcontext, hok⟩
  · rintro h hadmitted output decision hdenied
      ⟨honRequest, hkind, hreads, hshould, hmanaged, hescalate, payload, context, rfl,
        hcontext, hok⟩
    exact h ⟨honRequest, hkind, hreads, hshould, hmanaged, hescalate, hadmitted, output, payload,
      context, hdenied, hcontext, hok⟩

def workspaceTurn (managedNetworkActive : Bool) : Turn :=
  ⟨.onRequest, .managed (.restricted [] none) .restricted, managedNetworkActive, false, .user⟩

def plainTool : Tool :=
  ⟨.useDefault, some (.skip false none), .auto, true, defaultShouldBypassApproval,
    defaultWantsNoSandboxApproval⟩

/-- Everything is approved; the sandbox denies each attempt over the host. -/
def hostAnswers : (o : Op) → o.Answer Unit Unit
  | .approve _ _ _ => Except.ok ()
  | .attempt _ _ =>
    Except.error (.denied () (some ⟨.ask, .decider, some .https, some "example.com".toList⟩))

/-- A turn whose sandbox must keep a directory from being read. -/
def deniedReadsTurn : Turn :=
  { workspaceTurn true with
    permissions := .managed (.restricted [⟨.path ["a".toList], .deny, none⟩] none) .restricted }

/-- The second attempt, over an approved host, keeps the sandbox. -/
theorem retry_sandboxed_iff_denied_reads :
    ((deniedReadsTurn.run plainTool).trace (fun o s => (hostAnswers o, s)) ()).getLast? =
      some (.attempt .retry true) ∧
    (deniedReadsTurn.run plainTool).Meets (retrySandboxed deniedReadsTurn plainTool hostAnswers)
      (fun _ _ => True) () := by
  refine ⟨rfl, ?_⟩
  refine (retry_sandboxed_iff deniedReadsTurn plainTool hostAnswers rfl (.inr rfl)).2 ?_
  rintro ⟨-, -, hreads, -⟩
  cases hreads

/-- The second attempt has no sandbox, although only the host was approved. -/
theorem host_approval_unsandboxes :
    (workspaceTurn true).shouldSandbox plainTool = true ∧
    ((workspaceTurn true).run plainTool).trace (fun o s => (hostAnswers o, s)) () =
      [.attempt .first true,
        .approve .retry .user
          ⟨some "Network access to \"example.com\" is blocked by policy.".toList,
          some ⟨"example.com".toList, .https⟩⟩,
        .attempt .retry false] :=
  ⟨rfl, rfl⟩

/-- What has happened in a run. -/
structure Progress where
  attempts : ℕ
  approved : Bool

section Consent

variable (turn : Turn) (tool : Tool) (ruled : Bool)

/-- What an attempt must have behind it; `ruled` tells whether rules allow the whole command. -/
structure Behind (progress : Progress) (requested : Bool) : Prop where
  permitted : ∀ reason, turn.requirement tool ≠ .forbidden reason
  second : progress.attempts < 2
  approved : ∀ reason amendment, turn.requirement tool = .needsApproval reason amendment →
    progress.approved = true
  agreed : requested = false → turn.shouldSandbox tool = true → progress.approved = true ∨
    ruled = true
  reads : requested = false → turn.shouldSandbox tool = true →
    turn.fileSystem.hasDeniedReadRestrictions = false

def consent : Prog.Contract Op (Op.Answer δ Out) Progress where
  guar := fun progress o => ∀ stage requested, o = .attempt stage requested →
    Behind turn tool ruled progress requested
  rely := fun _ _ => True
  next := fun progress o x =>
    match o, x with
    | .approve _ _ _, .ok () => { progress with approved := true }
    | .approve _ _ _, .error _ => progress
    | .attempt _ _, _ => { progress with attempts := progress.attempts + 1 }

variable {turn tool ruled}

theorem reads_of_unsandboxed (hrequested : turn.firstSandboxRequested tool = false)
    (hshould : turn.shouldSandbox tool = true) :
    turn.fileSystem.hasDeniedReadRestrictions = false := by
  by_contra hdenied
  rw [Bool.not_eq_false] at hdenied
  simp [Turn.firstSandboxRequested, sandboxOverrideForFirstAttempt,
    unsandboxedExecutionAllowed, hdenied, hshould] at hrequested

variable (hwants : tool.wantsNoSandboxApproval = defaultWantsNoSandboxApproval)

include hwants in
theorem meets_consent_afterDenial
    (hbypass : tool.shouldBypassApproval = defaultShouldBypassApproval)
    (hpermitted : ∀ reason, turn.requirement tool ≠ .forbidden reason) (approved : Bool)
    (output : δ) (decision : Option NetworkPolicyDecisionPayload) :
    (turn.afterDenial tool approved output decision : Run δ Out Out).Meets (consent turn tool ruled)
      (fun _ _ => True) ⟨1, approved⟩ := by
  rw [meets_afterDenial]
  intro hretries
  have hbehind : Behind turn tool ruled ⟨1, true⟩
      (!unsandboxedExecutionAllowed turn.fileSystem && turn.shouldSandbox tool) := by
    refine ⟨hpermitted, by decide, fun _ _ _ => rfl, fun _ _ => .inl rfl,
      fun hrequested hshould => ?_⟩
    simpa [unsandboxedExecutionAllowed, hshould] using hrequested
  dsimp only
  split
  · rename_i h
    -- no prompt: the first attempt was approved, as there is no second one under `Never`
    simp only [hbypass, defaultShouldBypassApproval, Bool.and_eq_true, Bool.or_eq_true,
      decide_eq_true_eq] at h
    obtain ⟨⟨-, happroved | hnever⟩, hnone⟩ := h
    · subst happroved
      rintro _ _ ⟨⟩
      exact hbehind
    · have hasked := hretries.2.2.1
      simp [hwants, hnever, defaultWantsNoSandboxApproval,
        allowOnRequestNetworkPrompt_iff] at hasked
  · refine ⟨fun _ _ h => (nomatch h), fun _ => ?_⟩
    rintro _ _ ⟨⟩
    exact hbehind

theorem Behind.of_approved (hpermitted : ∀ reason, turn.requirement tool ≠ .forbidden reason) :
    Behind turn tool ruled ⟨0, true⟩ (turn.firstSandboxRequested tool) :=
  ⟨hpermitted, by decide, fun _ _ _ => rfl, fun _ _ => .inl rfl, reads_of_unsandboxed⟩

theorem behind_unapproved_iff {amendment : Option (List Text)}
    (hskip : turn.requirement tool = .skip ruled amendment) :
    Behind turn tool ruled ⟨0, false⟩ (turn.firstSandboxRequested tool) ↔
      ¬ (tool.sandboxPermissions = .requireEscalated ∧
        turn.fileSystem.hasDeniedReadRestrictions = false ∧
        turn.shouldSandbox tool = true ∧ ruled = false) := by
  constructor
  · rintro h ⟨hescalated, hreads, hshould, rfl⟩
    have hfirst : turn.firstSandboxRequested tool = false := by
      simp [Turn.firstSandboxRequested, sandboxOverrideForFirstAttempt, unsandboxedExecutionAllowed,
        hreads, hskip, hescalated]
    rcases h.agreed hfirst hshould with h | h <;> cases h
  · intro hnot
    refine ⟨fun _ h => ?_, by decide, fun _ _ h => ?_, fun hrequested hshould => .inr ?_,
      reads_of_unsandboxed⟩
    · rw [hskip] at h
      cases h
    · rw [hskip] at h
      cases h
    · by_contra hruled
      rw [Bool.not_eq_true] at hruled
      subst hruled
      have hreads := reads_of_unsandboxed hrequested hshould
      refine hnot ⟨?_, hreads, hshould, rfl⟩
      by_contra hdefault
      simp [Turn.firstSandboxRequested, sandboxOverrideForFirstAttempt, hskip, hdefault,
        hshould] at hrequested

include hwants in
theorem meets_consent_iff (hbypass : tool.shouldBypassApproval = defaultShouldBypassApproval)
    (hruled : ∀ bypass amendment, turn.requirement tool = .skip bypass amendment → bypass = ruled) :
    (turn.run tool : Run δ Out Out).Meets (consent turn tool ruled) (fun _ _ => True) ⟨0, false⟩ ↔
      ¬ ((∃ amendment, turn.requirement tool = .skip ruled amendment) ∧
        turn.strictAutoReview = false ∧
        tool.sandboxPermissions = .requireEscalated ∧
          turn.fileSystem.hasDeniedReadRestrictions = false ∧
        turn.shouldSandbox tool = true ∧ ruled = false) := by
  have hattempt (approved : Bool) :
      (attempt .first (turn.firstSandboxRequested tool) >>=
        turn.afterFirst tool approved : Run δ Out Out).Meets
          (consent turn tool ruled) (fun _ _ => True) ⟨0, approved⟩ ↔
        Behind turn tool ruled ⟨0, approved⟩ (turn.firstSandboxRequested tool) := by
    rw [meets_first]
    refine ⟨fun h => h.1 _ _ rfl, fun h => ⟨?_, fun output decision _ => ?_⟩⟩
    · rintro _ _ ⟨⟩
      exact h
    · exact meets_consent_afterDenial hwants hbypass h.permitted approved output decision
  rw [Turn.run, meets_approveFirst]
  cases hrequirement : turn.requirement tool with
  | skip bypass amendment =>
    obtain rfl := hruled bypass amendment hrequirement
    cases turn.strictAutoReview with
    | false =>
      refine (hattempt false).trans ((behind_unapproved_iff hrequirement).trans (not_congr ?_))
      simp
    | true =>
      refine iff_of_true ⟨fun _ _ h => (nomatch h),
        fun _ => (hattempt true).2 (.of_approved ?_)⟩ (by simp)
      simp [hrequirement]
  | needsApproval reason amendment =>
    refine iff_of_true ⟨fun _ _ h => (nomatch h),
      fun _ => (hattempt true).2 (.of_approved ?_)⟩ (by simp)
    simp [hrequirement]
  | forbidden reason => exact iff_of_true trivial (by simp)

end Consent

/-- A command leaves the sandbox without consent just where it asks for escalation and is let
through by the heuristics, as it is in an unrestricted file system. -/
theorem consent_iff (env : PathEnv) (tryParseShell : Text → Option Bash.Tree)
    (knowledge : CommandKnowledge)
    (policy : Policy) (turn : Turn) (call : CommandCall turn.approvalPolicy) :
    let request := call.approvalRequest turn.permissions
    let segments := (commandsForExecPolicy tryParseShell call.command).commands
    ∃ requirement,
      createExecApprovalRequirementForCommand env tryParseShell knowledge policy request =
        some requirement ∧
      ((turn.run (call.tool requirement) : Run δ Out Out).Meets
          (consent turn (call.tool requirement) (ruledAllow env policy segments)) (fun _ _ => True)
            ⟨0, false⟩ ↔
        ¬ (call.sandboxPermissions = .requireEscalated ∧ turn.strictAutoReview = false ∧
          turn.fileSystem.hasDeniedReadRestrictions = false ∧
          shouldSandbox turn.permissions call.sandboxPreference turn.managedNetworkActive = true ∧
          ruledAllow env policy segments = false ∧
          ∀ c ∈ segments, ∀ m ∈ policy.matchesForCommandWithOptions env c
            (some (request.fallback tryParseShell knowledge)) ⟨true⟩, m.decision = .allow)) := by
  intro request segments
  obtain ⟨decision, requirement, hcreate, hrequires, hle⟩ :=
    requirement_spec env tryParseShell knowledge policy request
  refine ⟨requirement, hcreate, ?_⟩
  have hallow : (∃ amendment, requirement = .skip (ruledAllow env policy segments) amendment) ↔
      ∀ c ∈ segments, ∀ m ∈ policy.matchesForCommandWithOptions env c
        (some (request.fallback tryParseShell knowledge)) ⟨true⟩, m.decision = .allow := by
    have hstrictest : ∀ d, d ≤ decision →
        (∀ c ∈ segments, ∀ m ∈ policy.matchesForCommandWithOptions env c
        (some (request.fallback tryParseShell knowledge)) ⟨true⟩, m.decision = .allow) →
          d = .allow := by
      intro d hd hall
      obtain ⟨c, hc, m, hm, hdm⟩ := (hle d).1 hd
      rw [hall c hc m hm] at hdm
      exact Decision.le_allow.1 hdm
    cases hrequires with
    | forbidden | rejected | prompt =>
      exact ⟨fun h => (nomatch h), fun hall => (nomatch hstrictest _ le_rfl hall)⟩
    | allow amendment =>
      refine ⟨fun _ c hc m hm => ?_, fun _ => ⟨amendment, rfl⟩⟩
      exact Decision.le_allow.1 ((hle _).2 ⟨c, hc, m, hm, le_rfl⟩)
  rw [meets_consent_iff rfl rfl, ← hallow]
  · refine not_congr ⟨?_, ?_⟩
    · rintro ⟨hskip, hstrict, hescalated, hreads, hshould, hruled⟩
      exact ⟨hescalated, hstrict, hreads, hshould, hruled, hskip⟩
    · rintro ⟨hescalated, hstrict, hreads, hshould, hruled, hskip⟩
      exact ⟨hskip, hstrict, hescalated, hreads, hshould, hruled⟩
  · rintro bypass amendment rfl
    cases hrequires
    rfl

/-- In an unrestricted file system with a managed network, a command that no rule names and no
reviewer has seen leaves the sandbox. -/
theorem escalated_without_consent :
    let turn : Turn := ⟨.onRequest, .managed .unrestricted .restricted, true, false, .user⟩
    let call : CommandCall .onRequest :=
      ⟨["curl".toList], none, .requireEscalated, false, .auto, true, fun h => (nomatch h),
        fun _ => .inr rfl⟩
    turn.shouldSandbox (call.tool (.skip false (some ["curl".toList]))) = true ∧
    createExecApprovalRequirementForCommand ⟨none, none⟩ (fun _ => none)
      ⟨fun _ => false, fun _ => none, List.flatten⟩
      .empty (call.approvalRequest turn.permissions) = some (.skip false (some ["curl".toList])) ∧
    (turn.run (call.tool (.skip false (some ["curl".toList])))).trace
      (fun o s => ((match o with
        | .approve _ _ _ => Except.ok ()
        | .attempt _ _ => Except.ok () : o.Answer Unit Unit), s))
      () = [.attempt .first false] :=
  ⟨rfl, rfl, rfl⟩

end OmniDoer.Orchestrator
