import OmniDoer.Model.Auth
import OmniDoer.Model.SecureChannel

/-! # Requests at the control service

The model of the part of `omni_control/server.py` that acts on control requests for a
session. -/

namespace OmniDoer.Server

open Py Effects Requests

/-- What a handler knows about its caller. Without pairing every caller is trusted. -/
structure Handler where
  requiresPairing : Bool
  session : Option Auth.ControlSession
  restartConsoleBridge : Except Error Unit

/-- `not request.allowed_device_id or ... == session.device_id`. -/
def requestAllowedForSession (h : Handler) (request : ControlRequest) : Bool :=
  if !h.requiresPairing then true
  else
    match request.allowedDeviceId with
    | none => true
    | some deviceId => deviceId == "" || h.session.any fun s => deviceId == s.deviceId

def getRequestForSession (h : Handler) (requestId : String) : StoreProg ControlRequest := do
  let request ← RequestStore.get requestId
  if requestAllowedForSession h request then return request
  else .raise ⟨.permissionError, "request is not assigned to this device"⟩

/-- The tolerance `0.001` of the expiry check. -/
def expiryTolerance : Double := Double.ofRat (1 / 1000)

/-- `abs(x - float(request.expires_at)) > 0.001`. -/
def expiryDiffers (x : Double) (expiresAt : ℚ) : Bool :=
  expiryTolerance.lt (x.sub (.fin expiresAt)).abs

def validateEnvelopeForSession (h : Handler) (envelope : Dict) (request : ControlRequest) :
    Except Error Unit :=
  if !h.requiresPairing then .ok ()
  else
    match h.session with
    | none => .error ⟨.permissionError, "session required"⟩
    | some session =>
      if !SecureChannel.sameIds envelope request.requestId request.origin request.requestType.name
      then .error ⟨.permissionError, "envelope associated data mismatch"⟩
      else if !Json.eqStr (envelope.get? "device_id") session.deviceId then
        .error ⟨.permissionError, "envelope device mismatch"⟩
      else
        match SecureChannel.envelopeExpiry envelope with
        | .error err => .error err
        | .ok x =>
          if expiryDiffers x request.expiresAt then
            .error ⟨.permissionError, "envelope expiry mismatch"⟩
          else .ok ()

/-- The actions of `POST /api/requests/{id}/{action}` that change a request. -/
inductive RequestAction where
  | approve (body : Dict)
  | deny
  | release
  | completeChallenge
  | submit (body : Dict)

/-- What the handler answers: the request, or an error without an exception. -/
inductive ActionResult where
  | request (r : ControlRequest)
  | badRequest (error : String)

/-- `body.get("envelope", body)`, used as a dictionary. -/
def envelopeOf (body : Dict) : Except Error Dict :=
  match body.get? "envelope" with
  | none => .ok body
  | some (.obj envelope) => .ok envelope
  | some _ => .error ⟨.attributeError, "get"⟩

/-- `body.get(...) is not True or body.get("request_id") != request_id`. -/
def unconfirmed (body : Dict) (requestId : String) : Bool :=
  (match body.get? "explicit_user_confirmation" with
    | some (.bool true) => false
    | _ => true) ||
    !Json.eqStr (body.get? "request_id") requestId

def approveAction (h : Handler) (requestId : String) (controlRequest : ControlRequest) :
    StoreProg ControlRequest := do
  let request ← RequestStore.approve requestId
  if controlRequest.requestType = .consoleRestart then
    Prog.ofExcept h.restartConsoleBridge
    RequestStore.consumeApproval requestId
  else return request

def postRequestAction (h : Handler) (requestId : String) (action : RequestAction) :
    StoreProg ActionResult := do
  let controlRequest ← getRequestForSession h requestId
  match action with
  | .approve body =>
    if controlRequest.requestType ∈ [RequestType.paymentApproval, RequestType.consoleRestart] ∧
        unconfirmed body requestId then
      return .badRequest "explicit_user_confirmation_required"
    else .request <$> approveAction h requestId controlRequest
  | .deny => .request <$> RequestStore.deny requestId
  | .release => .request <$> RequestStore.releaseTakeover requestId
  | .completeChallenge => .request <$> RequestStore.markChallengeCompleted requestId
  | .submit body => do
      let envelope ← Prog.ofExcept (envelopeOf body)
      Prog.ofExcept (validateEnvelopeForSession h envelope controlRequest)
      .request <$> RequestStore.submitCiphertext requestId envelope

end OmniDoer.Server
