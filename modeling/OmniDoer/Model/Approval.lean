import OmniDoer.Library.PyHash
import OmniDoer.Model.Policy
import OmniDoer.Model.Redactor
import OmniDoer.Model.Requests

/-! The human approval gate (`omni_approval/approval.py`) and its use for sensitive
clicks (`omni_mcp/tools.py`). The hash is a parameter. -/

namespace OmniDoer.Approval

open Py Effects Requests Requests.RequestStore

def approvalScopeFields : List String :=
  ["sensitive_action_type", "merchant", "payee", "recipient", "amount", "currency",
    "item_summary", "service_summary", "payment_method_summary", "billing_method_summary",
    "origin", "form_action", "form_action_origin", "final_button", "subscription", "renewal",
    "refund_terms", "cancellation_terms", "after_approval"]

mutual

def normalizeValue (py : Interpreter) : Json → Json
  | .null => .str ""
  | .arr items => .arr (normalizeItems py items)
  | .obj members => .obj (sortKeys (normalizeMembers py members))
  | v => .str (strip (v.toStr py))

def normalizeItems (py : Interpreter) : List Json → List Json
  | [] => []
  | v :: rest => normalizeValue py v :: normalizeItems py rest

def normalizeMembers (py : Interpreter) : Dict → Dict
  | [] => []
  | (key, v) :: rest => (key, normalizeValue py v) :: normalizeMembers py rest

end

/-- What a user reviews. -/
structure Review where
  origin : String
  topLevelUrl : String
  actionSummary : String
  structuredDetails : Dict

def approvalScope (py : Interpreter) (review : Review) : Dict :=
  approvalScopeFields.foldl (fun scope key =>
      match Dict.get? review.structuredDetails key with
      | some v => Dict.set scope key (normalizeValue py v)
      | none => scope)
    [("origin", normalizeValue py (.str review.origin)),
      ("top_level_url", normalizeValue py (.str review.topLevelUrl)),
      ("action_summary", normalizeValue py (.str review.actionSummary))]

def approvalFingerprint (py : Interpreter) (sha256 : ByteArray → ByteArray) (review : Review) :
    String :=
  hexDigest sha256 ((Json.obj (approvalScope py review)).dumps py false)

section Gate

variable (py : Interpreter) (sha256 : ByteArray → ByteArray)

def requestApproval (requestId : String) (review : Review) (riskLevel : String) :
    StoreProg ControlRequest :=
  create requestId
    { requestType := "payment_approval"
      origin := review.origin
      topLevelUrl := review.topLevelUrl
      actionSummary := review.actionSummary
      riskLevel := riskLevel
      requestedFields := (review.structuredDetails.map Prod.fst).insertionSort (· ≤ ·)
      structuredDetails := review.structuredDetails
      approvalFingerprint := some (approvalFingerprint py sha256 review) }

def permissionError {α : Type} (message : String) : StoreProg α :=
  .raise ⟨.permissionError, message⟩

/-- The comparison of a stored request with the reviewed values; an empty fingerprint
counts as missing. -/
def checkScope (request : ControlRequest) (review : Review) : Except Error Unit :=
  let expected := request.approvalFingerprint.getD ""
  if expected ≠ "" ∧ approvalFingerprint py sha256 review ≠ expected then
    .error ⟨.permissionError, "approval scope changed after user review"⟩
  else if expected = "" then
    .error ⟨.permissionError, "approval fingerprint is required for scoped sensitive actions"⟩
  else if request.origin ≠ review.origin then
    .error ⟨.permissionError, "approval origin mismatch"⟩
  else .ok ()

def verifyApprovalScope (requestId : String) (review : Review) (consume : Bool) :
    StoreProg ControlRequest := do
  let request ← get requestId
  if request.status ≠ .approved then permissionError "approval request is not approved"
  else if request.used then permissionError "approval request already used"
  else
    Prog.ofExcept (checkScope py sha256 request review)
    if consume then consumeApproval requestId else return request

end Gate

/-- What the browser reports about its page and the element to be clicked. -/
structure ClickTarget where
  currentUrl : String
  selector : String
  metadata : Dict

/-- `str(field.get("value") or "")` of the first field with one of the names. -/
def fieldValue (py : Interpreter) (metadata : Dict) (names : List String) : String :=
  let named : Json → Option Dict
    | .obj field =>
      if names.contains (py.lower (Policy.getText py field "name")) ||
          names.contains (py.lower (Policy.getText py field "id")) then some field
      else none
    | _ => none
  match (Policy.formFields metadata).findSome? named with
  | some field => (getOr field "value" (.str "")).toStr py
  | none => ""

def approvalRequestType (actionType : String) : String :=
  if actionType ∈ ["payment_submit", "purchase", "transfer", "subscription"] then
    "payment_approval"
  else if actionType = "oauth_grant" then "oauth_approval"
  else if actionType = "account_deletion" then "account_delete"
  else if actionType = "send_sensitive_message" then "message_send"
  else "payment_approval"

def replaceUnderscores (s : String) : String :=
  String.ofList (s.toList.map fun c => if c = '_' then ' ' else c)

def sensitiveClickReview (py : Interpreter) (target : ClickTarget) (actionType : String) :
    Except Error Review := do
  let origin := (← Policy.originFromUrl py target.currentUrl).getD ""
  let finalButton :=
    (getOr target.metadata "text" (getOr target.metadata "value" (.str target.selector))).toStr py
  let formAction := (getOr target.metadata "form_action" (.str "")).toStr py
  let formActionOrigin := (← Policy.originFromUrl py formAction).getD ""
  let field := fieldValue py target.metadata
  let details : List (String × String) :=
    [("sensitive_action_type", actionType),
      ("origin", origin),
      ("form_action", formAction),
      ("form_action_origin", formActionOrigin),
      ("final_button", finalButton),
      ("selector", target.selector),
      ("merchant", field ["merchant", "payee", "recipient"]),
      ("recipient", field ["recipient", "payee", "merchant"]),
      ("amount", field ["amount", "total"]),
      ("currency", field ["currency"]),
      ("billing_method_summary", field ["billing_method_summary", "payment_method_summary"]),
      ("subscription", field ["subscription", "renewal"]),
      ("after_approval", "Click '" ++ finalButton ++
        "' in the controlled browser only if these reviewed details are unchanged.")]
  return {
    origin := origin
    topLevelUrl := target.currentUrl
    actionSummary := "Approve " ++ replaceUnderscores actionType ++ ": " ++ finalButton
    structuredDetails :=
      (details.filter fun d => d.2 ≠ "").map fun d => (d.1, Json.str d.2) }

inductive ClickOutcome where
  | allowed
  | error (status message : String)
  | approvalScopeMismatch (reason : String)
  | approvalRequired (request : ControlRequest) (blockedAction : String)

/-- `d.get(k₁) or d.get(k₂)`. -/
def getEither (d : Dict) (k₁ k₂ : String) : Json := getOr d k₁ ((Dict.get? d k₂).getD .null)

section Clicks

variable (py : Interpreter) (sha256 : ByteArray → ByteArray)

/-- A click that names an approval consumes it. -/
def clickWithApproval (requestId actionType : String) (review : Review) : StoreProg ClickOutcome :=
  -- `except KeyError` covers only the first read
  Prog.bind ((some <$> get requestId).handle fun e =>
      if e.kind = .keyError then return none else .raise e)
    fun request =>
      match request with
      | none => return .error "not_found" "approval request not found"
      | some request =>
        if request.requestType.name ≠ approvalRequestType actionType then
          return .error "rejected" "approval request type does not match click action"
        else
          ((fun _ => ClickOutcome.allowed) <$>
            verifyApprovalScope py sha256 requestId review true).handle fun e =>
              if e.kind = .permissionError then return .approvalScopeMismatch e.message
              else .raise e

/-- `_sensitive_click_allowed`; `freshId` is the id a new request would get. -/
def sensitiveClickAllowed (freshId : String) (arguments : Dict) (target : ClickTarget) :
    StoreProg ClickOutcome :=
  match Policy.classifySensitiveClick py target.metadata with
  | none => return .allowed
  | some actionType => do
      let review ← Prog.ofExcept (sensitiveClickReview py target actionType)
      let requestId := getEither arguments "approval_request_id" "request_id"
      if requestId.truthy then
        clickWithApproval py sha256 (requestId.toStr py) actionType review
      else
        let details :=
          match Redactor.redactDomSnapshot py (.obj review.structuredDetails) with
          | .obj members => members
          | _ => []
        let request ← create freshId
          { requestType := approvalRequestType actionType
            origin := review.origin
            topLevelUrl := review.topLevelUrl
            actionSummary := review.actionSummary
            riskLevel := (getOr arguments "risk_level" (.str "high")).toStr py
            structuredDetails := details
            approvalFingerprint := some (approvalFingerprint py sha256 review) }
        return .approvalRequired request actionType

end Clicks

end OmniDoer.Approval
