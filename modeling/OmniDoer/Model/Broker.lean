import OmniDoer.Model.Browser
import OmniDoer.Model.Policy
import OmniDoer.Model.SecureChannel

/-! # The secret broker

The model of `omni_broker/broker.py` and of what it shares with the challenge relay: a
decrypted answer is kept per request and typed into the browser. -/

namespace OmniDoer.Broker

open Py Effects Requests SecureChannel Browser

/-- A call of `fill_field`. `requestId` says whose answer is typed and `tick` how often
the clock had been read. -/
structure Fill where
  requestId : String
  selector : String
  value : String
  tick : ℕ
  deriving DecidableEq, Repr

/-- The decrypted payloads, the markers of the replay guard, if there is one, and the
calls of `fill_field`, those that raised included. -/
structure Client where
  payloads : Dict
  seen : Option (List String)
  fills : List Fill

inductive BrokerOp where
  | getPayload (requestId : String)
  | setPayload (requestId : String) (payload : Json)
  | decrypt (envelope : Dict) (expected : Expected)
  | currentUrl
  | inspectFormAction
  | fillField (requestId selector value : String)

@[reducible] def BrokerOp.Ans : BrokerOp → Type
  | .getPayload _ => Option Json
  | .setPayload _ _ => Unit
  | .decrypt _ _ => Except Error Json
  | .currentUrl => String
  | .inspectFormAction => Option String
  | .fillField _ _ _ => Except Error Unit

/-- What the process works with. -/
structure Setting where
  py : Interpreter
  channel : Channel
  browser : Controller
  clock : ℕ → ℚ

def BrokerOp.exec (setting : Setting) (w : World) : (o : BrokerOp) → Client → o.Ans × Client
  | .getPayload requestId, c => (c.payloads.get? requestId, c)
  | .setPayload requestId payload, c =>
    ((), { c with payloads := Dict.set c.payloads requestId payload })
  | .decrypt envelope expected, c =>
    let (payload, seen) :=
      decryptControlEnvelope setting.py setting.channel envelope expected c.seen
    (payload, { c with seen := seen })
  | .currentUrl, c => (setting.browser.currentUrl, c)
  | .inspectFormAction, c => (setting.browser.inspectFormAction, c)
  | .fillField requestId selector value, c =>
    (setting.browser.fillField c.fills.length selector value,
      { c with fills := c.fills ++ [⟨requestId, selector, value, w.tick⟩] })

abbrev BrokerProg (α : Type) :=
  Prog (StoreOp ⊕ BrokerOp) (Sum.elim StoreOp.Ans BrokerOp.Ans) Error α

/-- The request store and the process. -/
abbrev State := World × Client

def exec (setting : Setting) :
    (o : StoreOp ⊕ BrokerOp) → State → Sum.elim StoreOp.Ans BrokerOp.Ans o × State :=
  Prog.execSum (Requests.exec setting.clock) (BrokerOp.exec setting)

namespace BrokerProg

def store {α : Type} (p : StoreProg α) : BrokerProg α := p.inl

def getPayload (requestId : String) : BrokerProg (Option Json) :=
  .op (.inr (.getPayload requestId)) .pure

def setPayload (requestId : String) (payload : Json) : BrokerProg Unit :=
  .op (.inr (.setPayload requestId payload)) .pure

def decrypt (envelope : Dict) (expected : Expected) : BrokerProg Json :=
  .op (.inr (.decrypt envelope expected)) .ofExcept

def currentUrl : BrokerProg String := .op (.inr .currentUrl) .pure

def inspectFormAction : BrokerProg (Option String) := .op (.inr .inspectFormAction) .pure

def fillField (requestId selector value : String) : BrokerProg Unit :=
  .op (.inr (.fillField requestId selector value)) .ofExcept

def auditAppend (eventType : String) (fields : Dict) : BrokerProg Unit :=
  store (StoreProg.auditAppend ⟨eventType, fields⟩)

def valueError {α : Type} (message : String) : BrokerProg α := .raise ⟨.valueError, message⟩

end BrokerProg

open BrokerProg

/-- `payload.get` is asked of whatever the plaintext was. -/
def payloadDict : Json → Except Error Dict
  | .obj payload => .ok payload
  | _ => .error ⟨.attributeError, "object has no attribute 'get'"⟩

/-- The fields among `names` that the payload has a truthy value for. -/
def presentFields (payload : Dict) (names : List String) : List String :=
  names.filter fun name => (payload.get? name).any Json.truthy

def strings (names : List String) : Json := .arr (names.map .str)

/-- What tells `receive_from_control_client` and `receive_user_response` apart. -/
structure Receiver where
  accepts : RequestType → Bool
  wrongType : String
  noResponse : String
  fields : List String
  event : String
  details : ControlRequest → Dict

/-- The common body of the two methods. The payload is kept before it is looked at. -/
def receive (receiver : Receiver) (requestId : String) : BrokerProg Dict := do
  let request ← store (RequestStore.get requestId)
  if !receiver.accepts request.requestType then valueError receiver.wrongType
  else
    let envelope := request.responseCiphertext.getD []
    if envelope.isEmpty then valueError receiver.noResponse
    else
      let payload ← decrypt envelope (expectedFor request envelope)
      setPayload requestId payload
      let members ← .ofExcept (payloadDict payload)
      let fields := strings (presentFields members receiver.fields)
      auditAppend receiver.event
        ([("request_id", .str requestId), ("origin", .str request.origin)] ++
          receiver.details request ++ [("fields", fields), ("status", .str "ok")])
      return [("status", .str receiver.event), ("request_id", .str requestId),
        ("origin", .str request.origin)] ++ receiver.details request ++
        [("fields", fields), ("secret_exposed_to_model", .bool false)]

/-- The kept payload, or the one that is received now. -/
def payloadFor (receiver : Receiver) (requestId : String) : BrokerProg Json := do
  match notNone (← getPayload requestId) with
  | some payload => return payload
  | none =>
    let _ ← receive receiver requestId
    match ← getPayload requestId with
    | some payload => return payload
    | none => .raise ⟨.keyError, requestId⟩

/-- The decision is ALLOW, or its reason is raised. -/
def validateFill (py : Interpreter) (currentUrl : String) (allowedOrigins : List String)
    (formActionUrl : Option String) (topLevelFrame : Bool := true) :
    Except Error Policy.PolicyDecision := do
  let decision ←
    Policy.evaluateCredentialFill py currentUrl allowedOrigins topLevelFrame formActionUrl true
  if decision.decision = .allow then return decision
  else .error ⟨.permissionError, decision.reason⟩

namespace SecretBroker

def receiver : Receiver where
  accepts := (· == .credential)
  wrongType := "request is not a credential request"
  noResponse := "credential request has no encrypted response"
  fields := ["username", "password", "totp_seed"]
  event := "credential_received"
  details := fun _ => []

def defaultUsernameSelector : String :=
  "input[autocomplete='username'], input[name='email'], input[name='username'], " ++
    "input[name='acct'], #email, #username"

def defaultPasswordSelector : String := "input[type='password']"

/-- `str(payload.get(key) or "")`. -/
def payloadText (py : Interpreter) (payload : Json) (key : String) : Except Error String := do
  let members ← payloadDict payload
  return (RequestStore.getOr members key (.str "")).toStr py

def fillAfterReceive (py : Interpreter) (requestId : String)
    (usernameSelector : String := defaultUsernameSelector)
    (passwordSelector : String := defaultPasswordSelector) : BrokerProg Dict := do
  let request ← store (RequestStore.get requestId)
  let payload ← payloadFor receiver requestId
  let url ← currentUrl
  let formAction ← inspectFormAction
  let _ ← .ofExcept (validateFill py url [request.origin] formAction)
  fillField requestId usernameSelector (← .ofExcept (payloadText py payload "username"))
  fillField requestId passwordSelector (← .ofExcept (payloadText py payload "password"))
  let fields := strings ["username", "password"]
  auditAppend "credential_filled"
    [("request_id", .str requestId), ("origin", .str request.origin), ("fields", fields),
      ("status", .str "ok")]
  return [("status", .str "credential_received_and_filled"), ("origin", .str request.origin),
    ("fields", fields), ("saved_to_vault", .bool false),
    ("secret_exposed_to_model", .bool false)]

end SecretBroker

end OmniDoer.Broker
