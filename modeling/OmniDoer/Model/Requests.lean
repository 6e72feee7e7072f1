import OmniDoer.Library.Program
import OmniDoer.Library.Table
import OmniDoer.Library.PyJson
import Mathlib.Tactic.Simps.Basic

/-! Control, challenge, approval and takeover requests (`omni_control/requests.py`).

A method of the store is a program whose atomic operations are the critical sections
under the lock of the state file, readings of the clock and entries of the audit log.
Between two of them any other thread may run. -/

namespace OmniDoer.Requests

open Py Effects Tables

inductive RequestType where
  | credential
  | totp
  | oneTimeCode
  | smsCode
  | emailCode
  | captcha
  | passkey
  | webauthn
  | deviceConfirmation
  | payment3ds
  | humanTakeover
  | paymentApproval
  | oauthApproval
  | accountDelete
  | passwordChange
  | twoFactorChange
  | fileUpload
  | messageSend
  | accountRegistration
  | consoleRestart
  deriving DecidableEq, Repr

def RequestType.name : RequestType → String
  | .credential => "credential"
  | .totp => "totp"
  | .oneTimeCode => "one_time_code"
  | .smsCode => "sms_code"
  | .emailCode => "email_code"
  | .captcha => "captcha"
  | .passkey => "passkey"
  | .webauthn => "webauthn"
  | .deviceConfirmation => "device_confirmation"
  | .payment3ds => "payment_3ds"
  | .humanTakeover => "human_takeover"
  | .paymentApproval => "payment_approval"
  | .oauthApproval => "oauth_approval"
  | .accountDelete => "account_delete"
  | .passwordChange => "password_change"
  | .twoFactorChange => "two_factor_change"
  | .fileUpload => "file_upload"
  | .messageSend => "message_send"
  | .accountRegistration => "account_registration"
  | .consoleRestart => "console_restart"

/-- `REQUEST_TYPES`. -/
def requestTypes : List RequestType :=
  [.credential, .totp, .oneTimeCode, .smsCode, .emailCode, .captcha, .passkey, .webauthn,
    .deviceConfirmation, .payment3ds, .humanTakeover, .paymentApproval, .oauthApproval,
    .accountDelete, .passwordChange, .twoFactorChange, .fileUpload, .messageSend,
    .accountRegistration, .consoleRestart]

def RequestType.ofName? (name : String) : Option RequestType :=
  requestTypes.find? fun t => t.name == name

def RequestType.isTakeover (t : RequestType) : Bool :=
  t == .humanTakeover || t == .accountRegistration

inductive RequestStatus where
  | pending
  | userControl
  | fulfilled
  | approved
  | consumed
  | denied
  | released
  | challengeCompleted
  | expired
  | cancelled
  | rejected
  | failed
  deriving DecidableEq, Repr

def RequestStatus.name : RequestStatus → String
  | .pending => "pending"
  | .userControl => "user_control"
  | .fulfilled => "fulfilled"
  | .approved => "approved"
  | .consumed => "consumed"
  | .denied => "denied"
  | .released => "released"
  | .challengeCompleted => "challenge_completed"
  | .expired => "expired"
  | .cancelled => "cancelled"
  | .rejected => "rejected"
  | .failed => "failed"

def expirableStatuses : List RequestStatus := [.pending, .userControl, .fulfilled, .approved]

def completedRequestStatuses : List RequestStatus :=
  [.fulfilled, .approved, .consumed, .denied, .released, .challengeCompleted]

def abortedRequestStatuses : List RequestStatus :=
  [.denied, .expired, .cancelled, .rejected, .failed]

inductive ApprovalDecision where
  | approved
  | denied
  deriving DecidableEq, Repr

inductive ControlOwner where
  | agent
  | user
  deriving DecidableEq, Repr

structure ControlRequest where
  requestId : String
  requestType : RequestType
  origin : String
  topLevelUrl : String
  actionSummary : String
  riskLevel : String := "low"
  expiresAt : ℚ
  status : RequestStatus := .pending
  brokerPublicKeyFingerprint : Option String := none
  oneTimeUse : Bool := true
  saveToVault : Bool := false
  requestedFields : List String := []
  challengeType : Option String := none
  takeoverReason : Option String := none
  browserContextId : Option String := none
  takeoverFrameId : Option String := none
  takeoverFrameCapturedAt : Option Double := none
  takeoverFrameViewportWidth : Option ℤ := none
  takeoverFrameViewportHeight : Option ℤ := none
  allowedDeviceId : Option String := none
  controlOwner : ControlOwner := .agent
  structuredDetails : Dict := []
  responseCiphertext : Option Dict := none
  approvalDecision : Option ApprovalDecision := none
  approvalFingerprint : Option String := none
  completedByUser : Bool := false
  bypassed : Bool := false
  used : Bool := false
  createdAt : ℚ
  updatedAt : ℚ

def ControlRequest.isExpired (request : ControlRequest) (now : ℚ) : Bool :=
  decide (request.expiresAt < now)

/-- `request.updated_at = now`. -/
@[simps] def ControlRequest.touch (request : ControlRequest) (now : ℚ) : ControlRequest :=
  { request with updatedAt := now }

/-- The arguments of `AuditLog.append`. -/
structure AuditEvent where
  eventType : String
  fields : Dict

/-- `tick` counts the readings of the clock that have been made. -/
structure World where
  requests : Table ControlRequest.requestId
  audit : List AuditEvent
  tick : ℕ

/-- No request has been created and the clock has not been read. -/
def World.empty : World := ⟨.empty, [], 0⟩

inductive StoreOp where
  | time
  | getLocked (requestId : String)
  | updateLocked (request : ControlRequest)
  | listLocked
  | createLocked (request : ControlRequest)
  | auditAppend (event : AuditEvent)

@[reducible] def StoreOp.Ans : StoreOp → Type
  | .time => ℚ
  | .getLocked _ => Except Error ControlRequest
  | .updateLocked _ => ControlRequest × Option ControlRequest
  | .listLocked => List ControlRequest
  | .createLocked _ => Unit
  | .auditAppend _ => Unit

/-- `_expire_if_needed`: the clock is read only for an expirable status, and once more
for the time of the update. -/
def expireIfNeeded (clock : ℕ → ℚ) (request : ControlRequest) (tick : ℕ) : ControlRequest × ℕ :=
  if request.status ∈ expirableStatuses then
    if request.isExpired (clock tick) then
      ({ request with status := .expired }.touch (clock (tick + 1)), tick + 2)
    else (request, tick + 1)
  else (request, tick)

theorem expireIfNeeded_requestId (clock : ℕ → ℚ) (request : ControlRequest) (tick : ℕ) :
    (expireIfNeeded clock request tick).1.requestId = request.requestId := by
  unfold expireIfNeeded
  split
  · split <;> rfl
  · rfl

/-- The clock answers its `n`-th reading with `clock n`. -/
def exec (clock : ℕ → ℚ) : (o : StoreOp) → World → o.Ans × World
  | .time, w => (clock w.tick, { w with tick := w.tick + 1 })
  | .getLocked requestId, w =>
    match w.requests.lookup requestId with
    | none => (.error ⟨.keyError, "request not found: " ++ requestId⟩, w)
    | some request =>
      let (request, tick) := expireIfNeeded clock request w.tick
      (.ok request, { w with requests := w.requests.insert request, tick := tick })
  | .updateLocked request, w =>
    let previous := w.requests.lookup request.requestId
    let request := request.touch (clock w.tick)
    ((request, previous), { w with requests := w.requests.insert request, tick := w.tick + 1 })
  | .listLocked, w =>
    let (requests, tick) :=
      w.requests.mapAccum (expireIfNeeded clock) (expireIfNeeded_requestId clock) w.tick
    (requests.rows, { w with requests := requests, tick := tick })
  | .createLocked request, w => ((), { w with requests := w.requests.insert request })
  | .auditAppend event, w => ((), { w with audit := w.audit ++ [event] })

abbrev StoreProg (α : Type) := Prog StoreOp StoreOp.Ans Error α

namespace StoreProg

def time : StoreProg ℚ := .op .time .pure

def getLocked (requestId : String) : StoreProg ControlRequest :=
  .op (.getLocked requestId) .ofExcept

def updateLocked (request : ControlRequest) : StoreProg (ControlRequest × Option ControlRequest) :=
  .op (.updateLocked request) .pure

def listLocked : StoreProg (List ControlRequest) := .op .listLocked .pure

def createLocked (request : ControlRequest) : StoreProg Unit := .op (.createLocked request) .pure

def auditAppend (event : AuditEvent) : StoreProg Unit := .op (.auditAppend event) .pure

def valueError {α : Type} (message : String) : StoreProg α := .raise ⟨.valueError, message⟩

end StoreProg

namespace RequestStore

open StoreProg

def auditTransition (eventType : String) (request : ControlRequest)
    (previousStatus : Option RequestStatus) : StoreProg Unit :=
  auditAppend
    ⟨eventType,
      [("request_id", .str request.requestId), ("request_type", .str request.requestType.name),
        ("origin", .str request.origin),
        ("previous_status", (previousStatus.map fun s => Json.str s.name).getD .null),
        ("status", .str request.status.name), ("completed_by_user", .bool request.completedByUser),
        ("has_ciphertext", .bool request.responseCiphertext.isSome)]⟩

def list (includeExpired : Bool) : StoreProg (List ControlRequest) := do
  let values ← listLocked
  if includeExpired then return values
  return values.filter fun request => request.status != .expired

structure CreateArgs where
  requestType : String
  origin : String
  topLevelUrl : String
  actionSummary : String
  riskLevel : String := "low"
  ttlSeconds : ℤ := 300
  brokerPublicKeyFingerprint : Option String := none
  requestedFields : List String := []
  challengeType : Option String := none
  takeoverReason : Option String := none
  browserContextId : Option String := none
  allowedDeviceId : Option String := none
  saveToVault : Bool := false
  structuredDetails : Dict := []
  approvalFingerprint : Option String := none

/-- The new request; a takeover starts under the control of the user. -/
def newRequest (requestId : String) (requestType : RequestType) (args : CreateArgs)
    (expiresAt createdAt updatedAt : ℚ) : ControlRequest where
  requestId := requestId
  requestType := requestType
  origin := args.origin
  topLevelUrl := args.topLevelUrl
  actionSummary := args.actionSummary
  riskLevel := args.riskLevel
  expiresAt := expiresAt
  status := if requestType.isTakeover then .userControl else .pending
  brokerPublicKeyFingerprint := args.brokerPublicKeyFingerprint
  requestedFields := args.requestedFields
  challengeType := args.challengeType
  takeoverReason := args.takeoverReason
  browserContextId := args.browserContextId
  allowedDeviceId := args.allowedDeviceId
  controlOwner := if requestType.isTakeover then .user else .agent
  saveToVault := args.saveToVault
  structuredDetails := args.structuredDetails
  approvalFingerprint := args.approvalFingerprint
  createdAt := createdAt
  updatedAt := updatedAt

/-- `create`; the generated id is an argument. -/
def create (requestId : String) (args : CreateArgs) : StoreProg ControlRequest := do
  match RequestType.ofName? args.requestType with
  | none => valueError ("unsupported request type: " ++ args.requestType)
  | some requestType =>
    let expiresAt := (← time) + args.ttlSeconds
    let createdAt ← time
    let updatedAt ← time
    let request := newRequest requestId requestType args expiresAt createdAt updatedAt
    createLocked request
    auditTransition "control_request_created" request none
    return request

def get (requestId : String) : StoreProg ControlRequest := getLocked requestId

/-- Does an update make the request terminal or add its ciphertext? -/
def completes (previous : Option ControlRequest) (request : ControlRequest) : Bool :=
  let previousStatus := previous.map ControlRequest.status
  let hadCiphertext := previous.any fun r => r.responseCiphertext.isSome
  let becameTerminal := previousStatus != some request.status &&
    (request.status ∈ completedRequestStatuses || request.status ∈ abortedRequestStatuses)
  let receivedCiphertext := !hadCiphertext && request.responseCiphertext.isSome
  becameTerminal || receivedCiphertext

def update (request : ControlRequest) : StoreProg ControlRequest := do
  let (request, previous) ← updateLocked request
  if completes previous request then
    auditTransition "control_request_completed" request (previous.map ControlRequest.status)
  return request

def ensureActionable (request : ControlRequest) (allowFulfilled : Bool) : StoreProg Unit := do
  let now ← time
  if request.isExpired now then
    let _ ← update { request with status := .expired }
    valueError "request expired"
  else if request.used && !(allowFulfilled && request.status == .fulfilled) then
    valueError "request already used"

/-- The first two statements of every guarded method. -/
def getActionable (requestId : String) (allowFulfilled : Bool) : StoreProg ControlRequest := do
  let request ← get requestId
  ensureActionable request allowFulfilled
  return request

def submitCiphertext (requestId : String) (envelope : Dict) : StoreProg ControlRequest := do
  let request ← getActionable requestId false
  if request.responseCiphertext.isSome then valueError "request already used"
  else
    update { request with
      responseCiphertext := some envelope
      status := .fulfilled
      used := request.oneTimeUse
      completedByUser := true }

def approve (requestId : String) : StoreProg ControlRequest := do
  let request ← getActionable requestId false
  update { request with
    approvalDecision := some .approved
    status := .approved
    used := false
    completedByUser := true }

def deny (requestId : String) : StoreProg ControlRequest := do
  let request ← getActionable requestId false
  update { request with
    approvalDecision := some .denied
    status := .denied
    used := request.oneTimeUse
    completedByUser := true }

/-- `{**details, "cancel_reason": reason}` when a reason is given. -/
def withCancelReason (details : Dict) : Option String → Dict
  | none => details
  | some reason => if reason = "" then details else Dict.set details "cancel_reason" (.str reason)

def cancel (requestId : String) (reason : Option String) : StoreProg ControlRequest := do
  let request ← get requestId
  if request.status ∈ completedRequestStatuses || request.status ∈ abortedRequestStatuses then
    return request
  else
    update { request with
      status := .cancelled
      used := request.oneTimeUse
      completedByUser := false
      structuredDetails := withCancelReason request.structuredDetails reason }

def markChallengeCompleted (requestId : String) : StoreProg ControlRequest := do
  let request ← getActionable requestId true
  update { request with
    status := .challengeCompleted
    completedByUser := true
    bypassed := false
    used := request.oneTimeUse }

/-- The first statements of the takeover methods; the type is checked before the guard. -/
def getTakeover (requestId : String) : StoreProg ControlRequest := do
  let request ← get requestId
  if request.requestType.isTakeover then
    ensureActionable request false
    return request
  else valueError "request is not human takeover or registration handoff"

def releaseTakeover (requestId : String) : StoreProg ControlRequest := do
  let request ← getTakeover requestId
  update { request with
    status := .released
    controlOwner := .agent
    completedByUser := true
    bypassed := false
    used := request.oneTimeUse }

/-- `d.get(key) or default`. -/
def getOr (d : Dict) (key : String) (default : Json) : Json :=
  match Dict.get? d key with
  | some v => if v.truthy then v else default
  | none => default

/-- `viewport = frame.get("viewport") or {}`, which is then asked for its keys. -/
def frameViewport (frame : Dict) : Except Error Dict :=
  match getOr frame "viewport" (.obj []) with
  | .obj viewport => .ok viewport
  | _ => .error ⟨.attributeError, "object has no attribute 'get'"⟩

/-- `int(viewport.get(key) or 0) or None`. -/
def viewportSide (viewport : Dict) (key : String) : Except Error (Option ℤ) := do
  let side ← (getOr viewport key (.int 0)).toInt
  return if side = 0 then none else some side

/-- `float(frame.get("captured_at") or time.time())`. -/
def frameCapturedAt (frame : Dict) : StoreProg Double :=
  match Dict.get? frame "captured_at" with
  | some v => if v.truthy then .ofExcept v.toFloat else Double.fin <$> time
  | none => Double.fin <$> time

def recordTakeoverFrame (py : Interpreter) (requestId : String) (frame : Dict) :
    StoreProg ControlRequest := do
  let request ← getTakeover requestId
  -- a viewport without `get` raises only when its width is read, after the other fields
  let frameId := (getOr frame "frame_id" (.str "")).toStr py
  let capturedAt ← frameCapturedAt frame
  let viewport ← .ofExcept (frameViewport frame)
  let width ← .ofExcept (viewportSide viewport "width")
  let height ← .ofExcept (viewportSide viewport "height")
  update { request with
    takeoverFrameId := some frameId
    takeoverFrameCapturedAt := some capturedAt
    takeoverFrameViewportWidth := width
    takeoverFrameViewportHeight := height }

def takeoverFrameMaxAgeSeconds : Double := .fin 30

/-- `now or time.time()`. -/
def nowOrTime : Option Double → StoreProg Double
  | some now => if now.eq (.fin 0) then Double.fin <$> time else return now
  | none => Double.fin <$> time

def validateTakeoverFrame (requestId : String) (frameId : Option String) (now : Option Double) :
    StoreProg ControlRequest := do
  let request ← getTakeover requestId
  match request.takeoverFrameId with
  | none => return request
  | some current =>
    if current = "" then return request
    else if frameId ≠ some current then valueError "stale takeover frame"
    else
      let now ← nowOrTime now
      let age := now.sub (request.takeoverFrameCapturedAt.getD (.fin 0))
      if takeoverFrameMaxAgeSeconds.lt age then valueError "stale takeover frame"
      else return request

def consumeApproval (requestId : String) : StoreProg ControlRequest := do
  let request ← getActionable requestId false
  if request.status ≠ .approved ∨ request.approvalDecision ≠ some .approved then
    valueError "approval request is not approved"
  else update { request with status := .consumed, used := true }

end RequestStore

/-- The three exits of the polling loop, in the order in which they are tested. -/
def pollExits (requireCiphertext : Bool) (statuses : List RequestStatus)
    (request : ControlRequest) : Bool :=
  request.responseCiphertext.isSome || (request.status ∈ statuses && !requireCiphertext) ||
    request.status ∈ abortedRequestStatuses

/-- The polling loop of `wait_for_request_completion` for at most `fuel` more rounds;
without a result the caller is still waiting. Sleeping has no effect of its own. -/
def pollRequest (requestId : String) (deadline : ℚ) (requireCiphertext : Bool)
    (statuses : List RequestStatus) : ℕ → StoreProg (Option ControlRequest)
  | 0 => return none
  | fuel + 1 => do
      if (← StoreProg.time) < deadline then
        let request ← RequestStore.get requestId
        if pollExits requireCiphertext statuses request then return some request
        else pollRequest requestId deadline requireCiphertext statuses fuel
      else .raise ⟨.timeoutError, "timed out waiting for Control Client request"⟩

def waitForRequestCompletion (requestId : String) (timeoutSeconds : ℚ) (requireCiphertext : Bool)
    (terminalStatuses : List RequestStatus) (fuel : ℕ) : StoreProg (Option ControlRequest) := do
  let deadline := (← StoreProg.time) + timeoutSeconds
  let statuses := if terminalStatuses.isEmpty then completedRequestStatuses else terminalStatuses
  pollRequest requestId deadline requireCiphertext statuses fuel

/-- The calls of a client of the store. -/
inductive StoreCall where
  | list (includeExpired : Bool)
  | create (requestId : String) (args : RequestStore.CreateArgs)
  | get (requestId : String)
  | submitCiphertext (requestId : String) (envelope : Dict)
  | approve (requestId : String)
  | deny (requestId : String)
  | cancel (requestId : String) (reason : Option String)
  | markChallengeCompleted (requestId : String)
  | releaseTakeover (requestId : String)
  | recordTakeoverFrame (requestId : String) (frame : Dict)
  | validateTakeoverFrame (requestId : String) (frameId : Option String) (now : Option Double)
  | consumeApproval (requestId : String)

/-- The requests that a call hands back. -/
def StoreCall.prog (py : Interpreter) : StoreCall → StoreProg (List ControlRequest)
  | .list includeExpired => RequestStore.list includeExpired
  | .create requestId args => ([·]) <$> RequestStore.create requestId args
  | .get requestId => ([·]) <$> RequestStore.get requestId
  | .submitCiphertext requestId envelope =>
    ([·]) <$> RequestStore.submitCiphertext requestId envelope
  | .approve requestId => ([·]) <$> RequestStore.approve requestId
  | .deny requestId => ([·]) <$> RequestStore.deny requestId
  | .cancel requestId reason => ([·]) <$> RequestStore.cancel requestId reason
  | .markChallengeCompleted requestId => ([·]) <$> RequestStore.markChallengeCompleted requestId
  | .releaseTakeover requestId => ([·]) <$> RequestStore.releaseTakeover requestId
  | .recordTakeoverFrame requestId frame =>
    ([·]) <$> RequestStore.recordTakeoverFrame py requestId frame
  | .validateTakeoverFrame requestId frameId now =>
    ([·]) <$> RequestStore.validateTakeoverFrame requestId frameId now
  | .consumeApproval requestId => ([·]) <$> RequestStore.consumeApproval requestId

end OmniDoer.Requests
