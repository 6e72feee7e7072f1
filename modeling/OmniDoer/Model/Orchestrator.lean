import OmniDoer.Library.Program
import OmniDoer.Model.ExecPolicyManager

/-! # Attempts at running a tool

The model of `ToolOrchestrator::run` in `codex-rs/core/src/tools/orchestrator.rs`, with the rules of
`tools/sandboxing.rs` and of the sandbox manager that it consults: approval, an attempt under the
selected sandbox, and a second attempt where the first was denied. Reviewers and the tool itself
answer the operations of the program. -/

namespace OmniDoer.Orchestrator

open Rust Permissions ExecPolicy Effects

inductive ManagedFileSystemPermissions where
  | restricted (entries : List FileSystemSandboxEntry) (globScanMaxDepth : Option ℕ)
  | unrestricted

inductive PermissionProfile where
  | managed (fileSystem : ManagedFileSystemPermissions) (network : NetworkSandboxPolicy)
  | disabled
  | external (network : NetworkSandboxPolicy)

namespace PermissionProfile

def fileSystemSandboxPolicy : PermissionProfile → FileSystemSandboxPolicy
  | .managed (.restricted entries globScanMaxDepth) _ =>
    { kind := .restricted, globScanMaxDepth, entries }
  | .managed .unrestricted _ => .unrestricted
  | .disabled => .unrestricted
  | .external _ => .externalSandbox

def networkSandboxPolicy : PermissionProfile → NetworkSandboxPolicy
  | .managed _ network | .external network => network
  | .disabled => .enabled

end PermissionProfile

def shouldRequirePlatformSandbox (fileSystem : FileSystemSandboxPolicy)
    (network : NetworkSandboxPolicy)
    (hasManagedNetworkRequirements : Bool) : Bool :=
  if hasManagedNetworkRequirements then true
  else if network ≠ .enabled then fileSystem.kind ≠ .externalSandbox
  else
    match fileSystem.kind with
    | .restricted => !fileSystem.hasFullDiskWriteAccess
    | .unrestricted | .externalSandbox => false

inductive SandboxablePreference where
  | auto
  | require
  | forbid
  deriving DecidableEq

def shouldSandbox (permissions : PermissionProfile) (preference : SandboxablePreference)
    (hasManagedNetworkRequirements : Bool) : Bool :=
  match preference with
  | .forbid => false
  | .require => true
  | .auto =>
    shouldRequirePlatformSandbox permissions.fileSystemSandboxPolicy
      permissions.networkSandboxPolicy
      hasManagedNetworkRequirements

/-- `default_exec_approval_requirement`. -/
def defaultExecApprovalRequirement (policy : AskForApproval)
    (fileSystem : FileSystemSandboxPolicy) : ExecApprovalRequirement :=
  let needsApproval : Bool :=
    match policy with
    | .never => false
    | .onRequest | .granular _ => fileSystem.kind = .restricted
    | .unlessTrusted => true
  let disallowed : Bool :=
    match policy with
    | .granular config => !config.sandboxApproval
    | _ => false
  if needsApproval && disallowed then
    .forbidden "approval policy disallowed sandbox approval prompt".toList
  else if needsApproval then .needsApproval none none
  else .skip false none

def unsandboxedExecutionAllowed (fileSystem : FileSystemSandboxPolicy) : Bool :=
  !fileSystem.hasDeniedReadRestrictions

inductive SandboxOverride where
  | noOverride
  | bypassSandboxFirstAttempt
  deriving DecidableEq

def sandboxOverrideForFirstAttempt (sandboxPermissions : SandboxPermissions)
    (requirement : ExecApprovalRequirement)
    (fileSystem : FileSystemSandboxPolicy) : SandboxOverride :=
  if !unsandboxedExecutionAllowed fileSystem then .noOverride
  else
    match requirement with
    | .skip true _ => .bypassSandboxFirstAttempt
    | _ =>
      if sandboxPermissions = .requireEscalated then .bypassSandboxFirstAttempt else .noOverride

inductive NetworkApprovalProtocol where
  | http
  | https
  | socks5Tcp
  | socks5Udp
  deriving DecidableEq

structure NetworkApprovalContext where
  host : Text
  protocol : NetworkApprovalProtocol
  deriving DecidableEq

inductive NetworkPolicyDecision where
  | deny
  | ask
  deriving DecidableEq

inductive NetworkDecisionSource where
  | baselinePolicy
  | modeGuard
  | proxyState
  | decider
  deriving DecidableEq

structure NetworkPolicyDecisionPayload where
  decision : NetworkPolicyDecision
  source : NetworkDecisionSource
  protocol : Option NetworkApprovalProtocol
  host : Option Text

def networkApprovalContextFromPayload (payload : NetworkPolicyDecisionPayload) :
    Option NetworkApprovalContext := do
  if ¬ (payload.decision = .ask ∧ payload.source = .decider) then none
  else
    let protocol ← payload.protocol
    let host := Rust.trim (← payload.host)
    if host = [] then none else some ⟨host, protocol⟩

/-- What the methods of a runtime say about a request. -/
structure Tool where
  sandboxPermissions : SandboxPermissions
  execApprovalRequirement : Option ExecApprovalRequirement
  sandboxPreference : SandboxablePreference
  escalateOnFailure : Bool
  shouldBypassApproval : AskForApproval → Bool → Bool
  wantsNoSandboxApproval : AskForApproval → Bool

/-- The method of the trait `Approvable` that most runtimes keep. -/
def defaultShouldBypassApproval (policy : AskForApproval) (alreadyApproved : Bool) : Bool :=
  alreadyApproved || policy = .never

/-- Whether a run outside the sandbox may be asked for, in the same trait. -/
def defaultWantsNoSandboxApproval : AskForApproval → Bool
  | .unlessTrusted => true
  | .never | .onRequest => false
  | .granular config => config.sandboxApproval

inductive ApprovalReviewer where
  | guardian
  | user
  deriving DecidableEq

/-- What the orchestrator reads of the turn and its session. -/
structure Turn where
  approvalPolicy : AskForApproval
  /-- The profile in which the workspace roots have been filled in. -/
  permissions : PermissionProfile
  managedNetworkActive : Bool
  strictAutoReview : Bool
  reviewer : ApprovalReviewer

inductive ToolError (δ : Type) where
  | rejected (reason : Text)
  | denied (output : δ) (networkPolicyDecision : Option NetworkPolicyDecisionPayload)
  | codex (details : δ)

inductive Stage where
  | first
  | retry
  deriving DecidableEq

structure ApprovalCtx where
  retryReason : Option Text
  networkApprovalContext : Option NetworkApprovalContext

inductive Op where
  /-- `resolve_tool_apporval`. -/
  | approve (stage : Stage) (reviewer : ApprovalReviewer) (ctx : ApprovalCtx)
  /-- `run_attempt`, in which the tool runs once at most. -/
  | attempt (stage : Stage) (sandboxRequested : Bool)

variable {δ Out : Type}

/-- What operations are answered with. -/
def Op.Answer (δ Out : Type) : Op → Type
  | .approve _ _ _ => Except (ToolError δ) Unit
  | .attempt _ _ => Except (ToolError δ) Out

abbrev Run (δ Out : Type) := Prog Op (Op.Answer δ Out) (ToolError δ)

def approve (stage : Stage) (reviewer : ApprovalReviewer) (ctx : ApprovalCtx) : Run δ Out Unit :=
  .op (.approve stage reviewer ctx) .ofExcept

def attempt (stage : Stage) (sandboxRequested : Bool) : Run δ Out (Except (ToolError δ) Out) :=
  .op (.attempt stage sandboxRequested) .pure

namespace Turn

variable (turn : Turn) (tool : Tool)

def fileSystem : FileSystemSandboxPolicy := turn.permissions.fileSystemSandboxPolicy

def shouldSandbox : Bool :=
  Orchestrator.shouldSandbox turn.permissions tool.sandboxPreference turn.managedNetworkActive

def requirement : ExecApprovalRequirement :=
  tool.execApprovalRequirement.getD
    (defaultExecApprovalRequirement turn.approvalPolicy turn.fileSystem)

def reviewerInUse : ApprovalReviewer := if turn.strictAutoReview then .guardian else turn.reviewer

/-- The first approval: whether there has been one. -/
def approveFirst : ExecApprovalRequirement → Run δ Out Bool
  | .skip _ _ =>
    if turn.strictAutoReview then do
      approve .first .guardian ⟨none, none⟩
      return true
    else return false
  | .forbidden reason => .raise (.rejected reason)
  | .needsApproval reason _ => do
    approve .first turn.reviewerInUse ⟨reason, none⟩
    return true

def firstSandboxRequested : Bool :=
  match sandboxOverrideForFirstAttempt tool.sandboxPermissions
    (turn.requirement tool) turn.fileSystem with
  | .bypassSandboxFirstAttempt => false
  | .noOverride => turn.shouldSandbox tool

/-- The host that a denial asks about; it is asked only where the network is managed. -/
def networkContext (decision : Option NetworkPolicyDecisionPayload) :
    Option NetworkApprovalContext :=
  if turn.managedNetworkActive then decision.bind networkApprovalContextFromPayload else none

def retryReason : Option NetworkApprovalContext → Text
  | some context =>
    "Network access to \"".toList ++ context.host ++ "\" is blocked by policy.".toList
  | none => "command failed; retry without sandbox?".toList

/-- Whether a denial may be answered with a prompt for the network under `OnRequest`. -/
def allowOnRequestNetworkPrompt (context : Option NetworkApprovalContext) : Bool :=
  turn.approvalPolicy = .onRequest && context.isSome &&
    match defaultExecApprovalRequirement turn.approvalPolicy turn.fileSystem with
    | .needsApproval _ _ => true
    | _ => false

/-- What follows a first attempt that the sandbox denied. -/
def afterDenial (alreadyApproved : Bool) (output : δ)
    (decision : Option NetworkPolicyDecisionPayload) : Run δ Out Out :=
  let denied : Run δ Out Out := .raise (.denied output decision)
  let context := turn.networkContext decision
  let unsandboxedAllowed := unsandboxedExecutionAllowed turn.fileSystem
  if decision.isSome && context.isNone then denied
  else if !tool.escalateOnFailure then denied
  else if !tool.wantsNoSandboxApproval turn.approvalPolicy &&
      !turn.allowOnRequestNetworkPrompt context then denied
  else if !unsandboxedAllowed && context.isNone then denied
  else do
    let bypassRetryApproval := !turn.strictAutoReview &&
      tool.shouldBypassApproval turn.approvalPolicy alreadyApproved && context.isNone
    if !bypassRetryApproval then
      approve .retry turn.reviewerInUse ⟨some (retryReason context), context⟩
    let result ← attempt .retry (!unsandboxedAllowed && turn.shouldSandbox tool)
    .ofExcept result

def afterFirst (alreadyApproved : Bool) : Except (ToolError δ) Out → Run δ Out Out
  | .ok out => return out
  | .error (.denied output decision) => turn.afterDenial tool alreadyApproved output decision
  | .error error => .raise error

/-- `ToolOrchestrator::run`. -/
def run : Run δ Out Out := do
  let alreadyApproved ← turn.approveFirst (turn.requirement tool)
  attempt .first (turn.firstSandboxRequested tool) >>= turn.afterFirst tool alreadyApproved

end Turn

inductive ReviewDecision (ρ : Type) where
  | approvedForSession
  | other (decision : ρ)
  deriving DecidableEq

/-- A field of a serialised key. -/
inductive KeyField (J : Type) where
  | text (t : Text)
  | texts (ts : List Text)
  | flag (b : Bool)
  | profile (json : Option J)
  deriving DecidableEq

inductive Runtime where
  | shell
  | unifiedExec
  | applyPatch
  deriving DecidableEq

/-- `ApprovalKey`, `UnifiedExecApprovalKey` and `ApplyPatchApprovalKey`. -/
inductive ApprovalKey (φ : Type) where
  | shell (environmentId : Text) (command : List Text) (cwd : Text)
    (sandboxPermissions : SandboxPermissions)
      (additionalPermissions : Option φ)
  | unifiedExec (environmentId : Text) (command : List Text) (cwd : Text) (tty : Bool)
      (sandboxPermissions : SandboxPermissions) (additionalPermissions : Option φ)
  | applyPatch (environmentId : Text) (path : Text)
  deriving DecidableEq

def sandboxPermissionsText : SandboxPermissions → Text
  | .useDefault => "use_default".toList
  | .requireEscalated => "require_escalated".toList
  | .withAdditionalPermissions => "with_additional_permissions".toList

namespace ApprovalKey

variable {J φ : Type}

def runtime : ApprovalKey φ → Runtime
  | .shell .. => .shell
  | .unifiedExec .. => .unifiedExec
  | .applyPatch .. => .applyPatch

def additional : ApprovalKey φ → Option φ
  | .shell _ _ _ _ additionalPermissions | .unifiedExec _ _ _ _ _ additionalPermissions =>
    additionalPermissions
  | .applyPatch _ _ => none

/-- The object that is serialised, with its fields in order. -/
def json (profileJson : φ → J) : ApprovalKey φ → List (String × KeyField J)
  | .shell environmentId command cwd sandboxPermissions additionalPermissions =>
    [("environment_id", .text environmentId), ("command", .texts command), ("cwd", .text cwd),
      ("sandbox_permissions", .text (sandboxPermissionsText sandboxPermissions)),
      ("additional_permissions", .profile (additionalPermissions.map profileJson))]
  | .unifiedExec environmentId command cwd tty sandboxPermissions additionalPermissions =>
    [("environment_id", .text environmentId), ("command", .texts command), ("cwd", .text cwd),
      ("tty", .flag tty),
      ("sandbox_permissions", .text (sandboxPermissionsText sandboxPermissions)),
      ("additional_permissions", .profile (additionalPermissions.map profileJson))]
  | .applyPatch environmentId path =>
    [("environment_id", .text environmentId), ("path", .text path)]

end ApprovalKey

/-- `with_cached_approval` over the texts that are approved: the decision, whether it was fetched,
and the texts afterwards. -/
def withCachedApproval {J φ ρ : Type} (toText : List (String × KeyField J) → Option Text)
    (profileJson : φ → J)
    (store : List Text) (keys : List (ApprovalKey φ)) (fetch : ReviewDecision ρ) :
    ReviewDecision ρ × Bool × List Text :=
  if keys = [] then (fetch, true, store)
  else if keys.all fun key => (toText (key.json profileJson)).any (· ∈ store) then
    (.approvedForSession, false, store)
  else
    match fetch with
    | .approvedForSession =>
      (fetch, true, store ++ keys.filterMap fun key => toText (key.json profileJson))
    | .other _ => (fetch, true, store)

/-- A command that the shell and unified-exec handlers hand on. An override of the sandbox that has
not been approved with the permissions of the turn is refused in all modes but `OnRequest`. -/
structure CommandCall (approvalPolicy : AskForApproval) where
  command : List Text
  prefixRule : Option (List Text)
  sandboxPermissions : SandboxPermissions
  permissionsPreapproved : Bool
  sandboxPreference : SandboxablePreference
  escalateOnFailure : Bool
  preapproved_additional : permissionsPreapproved = true →
    sandboxPermissions = .withAdditionalPermissions
  override_allowed : sandboxPermissions.requestsSandboxOverride = true →
    permissionsPreapproved = true ∨ approvalPolicy = .onRequest

namespace CommandCall

variable {approvalPolicy : AskForApproval} (call : CommandCall approvalPolicy)

def approvalRequest (permissions : PermissionProfile) : ExecApprovalRequest where
  command := call.command
  approvalPolicy := approvalPolicy
  sandboxKind := permissions.fileSystemSandboxPolicy.kind
  sandboxPermissions := if call.permissionsPreapproved then .useDefault else call.sandboxPermissions
  prefixRule := call.prefixRule

/-- `ShellRuntime` and `UnifiedExecRuntime`. -/
def tool (requirement : ExecApprovalRequirement) : Tool where
  sandboxPermissions := call.sandboxPermissions
  execApprovalRequirement := some requirement
  sandboxPreference := call.sandboxPreference
  escalateOnFailure := call.escalateOnFailure
  shouldBypassApproval := defaultShouldBypassApproval
  wantsNoSandboxApproval := defaultWantsNoSandboxApproval

end CommandCall

end OmniDoer.Orchestrator
