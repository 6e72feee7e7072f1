import OmniDoer.Model.Broker

/-! # The challenge relay

The model of `ChallengeRelay` in `omni_challenge/relay.py`: the user's answer to a
challenge is decrypted, typed into the page and reported as completed. -/

namespace OmniDoer.ChallengeRelay

open Py Effects Requests Broker BrokerProg

/-- `request.challenge_type`. -/
def challengeTypeOf (request : ControlRequest) : Json :=
  (request.challengeType.map Json.str).getD .null

def receiver : Receiver where
  accepts := (· ∈ [.totp, .smsCode, .emailCode, .oneTimeCode, .payment3ds])
  wrongType := "request is not a user challenge response"
  noResponse := "challenge request has no encrypted response"
  fields := ["code", "otp", "ack"]
  event := "challenge_response_received"
  details := fun request => [("challenge_type", challengeTypeOf request)]

def receiveUserResponse (requestId : String) : BrokerProg Dict := receive receiver requestId

def defaultSelector (request : ControlRequest) : String :=
  ", ".intercalate
    ((request.requestedFields.flatMap fun field =>
      ["#" ++ field, "input[name='" ++ field ++ "']"]) ++
      ["input[autocomplete='one-time-code']", "#otp", "input[name='otp']", "#code",
        "input[name='code']", "#ack"])

/-- `selector or self._default_selector(request)`. -/
def targetSelector (selector : Option String) (request : ControlRequest) : String :=
  match selector with
  | some s => if s = "" then defaultSelector request else s
  | none => defaultSelector request

/-- `payload.get("code") or payload.get("otp") or payload.get("ack")`. -/
def payloadValue (payload : Dict) : Json :=
  RequestStore.getOr payload "code"
    (RequestStore.getOr payload "otp" ((payload.get? "ack").getD .null))

/-- What `inject_response_if_applicable` does before it types: the request and the value
to be typed. -/
def injectableValue (requestId : String) : BrokerProg (ControlRequest × Json) := do
  let request ← store (RequestStore.get requestId)
  let payload ← payloadFor receiver requestId
  let members ← .ofExcept (payloadDict payload)
  if (payloadValue members).truthy then return (request, payloadValue members)
  else valueError "challenge payload has no injectable value"

/-- The fields of the audit event of a completed challenge. -/
def completionFields (requestId : String) (request completed : ControlRequest) : Dict :=
  [("request_id", .str requestId), ("origin", .str request.origin),
    ("challenge_type", challengeTypeOf request), ("completed_by_user", .bool true),
    ("bypassed", .bool false), ("status", .str completed.status.name)]

def completionReport (status : String) (request : ControlRequest) : Dict :=
  [("status", .str status), ("origin", .str request.origin),
    ("challenge_type", challengeTypeOf request), ("completed_by_user", .bool true),
    ("bypassed", .bool false), ("secret_exposed_to_model", .bool false)]

/-- The statements after the value has been typed. -/
def reportInjected (requestId : String) (request : ControlRequest) : BrokerProg Dict := do
  let completed ← store (RequestStore.markChallengeCompleted requestId)
  auditAppend "challenge_response_injected" (completionFields requestId request completed)
  return completionReport "challenge_response_injected" request

def injectResponseIfApplicable (py : Interpreter) (requestId : String) (selector : Option String) :
    BrokerProg Dict := do
  let (request, value) ← injectableValue requestId
  fillField requestId (targetSelector selector request) (value.toStr py)
  reportInjected requestId request

def markCompletedByUser (requestId : String) : BrokerProg Dict := do
  let request ← store (RequestStore.markChallengeCompleted requestId)
  auditAppend "challenge_completed" (completionFields requestId request request)
  return completionReport "challenge_completed" request

/-- The calls of the relay, and the calls of the store between them. -/
inductive RelayCall where
  | receiveUserResponse (requestId : String)
  | injectResponseIfApplicable (requestId : String) (selector : Option String)
  | markCompletedByUser (requestId : String)
  | store (call : StoreCall)

def RelayCall.prog (py : Interpreter) : RelayCall → BrokerProg Unit
  | .receiveUserResponse requestId => (fun _ => ()) <$> ChallengeRelay.receiveUserResponse requestId
  | .injectResponseIfApplicable requestId selector =>
    (fun _ => ()) <$> ChallengeRelay.injectResponseIfApplicable py requestId selector
  | .markCompletedByUser requestId => (fun _ => ()) <$> ChallengeRelay.markCompletedByUser requestId
  | .store call => (fun _ => ()) <$> BrokerProg.store (call.prog py)

/-- The state after a call; a call that raises keeps its effects. -/
def RelayCall.step (setting : Setting) (s : State) (call : RelayCall) : State :=
  ((call.prog setting.py).run (Broker.exec setting) s).2

end OmniDoer.ChallengeRelay
