import OmniDoer.Model.Server

/-! # Takeover input

The model of the input path of a human takeover: the events of
`omni_takeover/input_events.py`, their validation against the recorded frame, and the two
ways to the browser, directly (`omni_takeover/relay.py`) or through the queue of files of
`omni_takeover/cross_process.py`. The frames that a tick publishes and the results that it
leaves for the waiting client are not part of the model: a frame may be recorded at any
time, and no result is read by the functions below. -/

namespace OmniDoer.Takeover

open Py Effects Requests Tables

/-- `data.get(key)`, where `null` is no value. -/
def valueOf (data : Dict) (key : String) : Option Json :=
  match data.get? key with
  | some .null => none
  | value => value

/-- The values are as the client sent them; `validateInputEvent` checks them. -/
structure InputEvent where
  eventType : String
  x : Option Json := none
  y : Option Json := none
  toX : Option Json := none
  toY : Option Json := none
  text : Option Json := none
  key : Option Json := none
  deltaX : Option Json := none
  deltaY : Option Json := none
  frameId : Option String := none

def pointerEventTypes : List String := ["tap", "click", "double_click", "long_press"]

def allowedInputEventTypes : List String :=
  pointerEventTypes ++ ["drag", "scroll", "type", "key", "release"]

def maxTakeoverTextChars : ℕ := 4096

def maxTakeoverKeyChars : ℕ := 64

def maxTakeoverFrameIdChars : ℕ := 128

/-- `len(value)`. -/
def lengthOf : Json → Except Error ℕ
  | .str s => .ok s.length
  | .arr items => .ok items.length
  | .obj members => .ok members.length
  | _ => .error ⟨.typeError, "object has no len()"⟩

def requireLength (limit : ℕ) (message : String) : Option Json → Except Error Unit
  | none => .ok ()
  | some value => do
      if limit < (← lengthOf value) then .error ⟨.valueError, message⟩ else .ok ()

def isIntCoordinate : Option Json → Bool
  | some (.int _) => true
  | _ => false

def requireCoordinates (values : List (Option Json)) : Except Error Unit :=
  if values.all isIntCoordinate then .ok ()
  else .error ⟨.valueError, "takeover coordinates must be integers"⟩

def validateInputEvent (event : InputEvent) : Except Error Unit := do
  if event.eventType ∉ allowedInputEventTypes then
    .error ⟨.valueError, "unsupported takeover event"⟩
  requireLength maxTakeoverFrameIdChars "takeover frame id too long" (event.frameId.map .str)
  requireLength maxTakeoverTextChars "takeover text too long" event.text
  requireLength maxTakeoverKeyChars "takeover key too long" event.key
  if event.eventType ∈ pointerEventTypes then requireCoordinates [event.x, event.y]
  if event.eventType = "drag" then requireCoordinates [event.x, event.y, event.toX, event.toY]
  if event.eventType = "scroll" then
    requireCoordinates ([event.deltaX, event.deltaY].filter Option.isSome)

/-- `_event_type(data.get("event_type") or data.get("type"))`. -/
def eventTypeOf (py : Interpreter) (data : Dict) : String :=
  let value := RequestStore.getOr data "event_type" ((data.get? "type").getD .null)
  strip (if value.truthy then value.toStr py else "")

def eventFromDict (py : Interpreter) (data : Dict) : Except Error InputEvent := do
  let event : InputEvent :=
    { eventType := eventTypeOf py data
      frameId := (valueOf data "frame_id").map (Json.toStr py)
      x := valueOf data "x"
      y := valueOf data "y"
      toX := valueOf data "to_x"
      toY := valueOf data "to_y"
      text := valueOf data "text"
      key := valueOf data "key"
      deltaX := valueOf data "delta_x"
      deltaY := valueOf data "delta_y" }
  validateInputEvent event
  return event

/-- `0 <= value < side`, which no text, list or dictionary can be asked. -/
def withinSide (side : ℤ) : Json → Except Error Bool
  | .int n => .ok (0 ≤ n ∧ n < side)
  | .bool b => .ok (b.toNat < side)
  | .float v => .ok (!v.lt (.fin 0) && v.lt (.fin side))
  | _ => .error ⟨.typeError, "'<=' not supported"⟩

def inBounds (width height : ℤ) : Option Json → Option Json → Except Error Bool
  | some x, some y => do
      if ← withinSide width x then withinSide height y else return false
  | _, _ => .ok false

def requireInBounds (width height : ℤ) (x y : Option Json) : Except Error Unit := do
  if ← inBounds width height x y then .ok ()
  else .error ⟨.valueError, "takeover coordinates out of frame bounds"⟩

/-- The checks of `validate_takeover_input` after the frame itself. -/
def checkBounds (event : InputEvent) (request : ControlRequest) : Except Error Unit :=
  match request.takeoverFrameViewportWidth, request.takeoverFrameViewportHeight with
  | some width, some height =>
    if width = 0 ∨ height = 0 then .ok ()
    else do
      if event.eventType ∈ pointerEventTypes then requireInBounds width height event.x event.y
      if event.eventType = "drag" then
        requireInBounds width height event.x event.y
        requireInBounds width height event.toX event.toY
  | _, _ => .ok ()

def validateTakeoverInput (requestId : String) (event : InputEvent) : StoreProg ControlRequest := do
  let request ← RequestStore.validateTakeoverFrame requestId event.frameId none
  .ofExcept (checkBounds event request)
  return request

/-- A file of the `inputs` directory. -/
structure QueuedInput where
  eventId : String
  requestId : String
  event : Dict
  createdAt : ℚ

/-- `status` is the context and the time of `status.json`. -/
structure ContextDir where
  status : Option (String × ℚ)
  inputs : Table QueuedInput.eventId

/-- An event that was handed to the browser, with the request as the state file then held
it and the time. -/
structure Applied where
  requestId : String
  event : InputEvent
  request : Option ControlRequest
  time : ℚ

structure Relay where
  dirs : String → ContextDir
  applied : List Applied

inductive RelayOp where
  | readStatus (dir : String)
  | writeStatus (dir contextId : String) (updatedAt : ℚ)
  | writeInput (dir : String) (input : QueuedInput)
  | globInputs (dir : String)
  | readInput (dir eventId : String)
  | unlinkInput (dir eventId : String)
  | applyUserInputEvent (requestId : String) (event : InputEvent)

@[reducible] def RelayOp.Ans : RelayOp → Type
  | .readStatus _ => Option (String × ℚ)
  | .writeStatus .. => Unit
  | .writeInput .. => Unit
  | .globInputs _ => List String
  | .readInput .. => Option QueuedInput
  | .unlinkInput .. => Unit
  | .applyUserInputEvent .. => Except Error Unit

/-- The interpreter, the clock, the browsers of the own process, and what the browser does
with its `n`-th event. -/
structure Setting where
  py : Interpreter
  clock : ℕ → ℚ
  registered : Option String → Bool
  browser : ℕ → InputEvent → Except Error Unit

def Relay.update (relay : Relay) (dir : String) (f : ContextDir → ContextDir) : Relay :=
  { relay with dirs := Function.update relay.dirs dir (f (relay.dirs dir)) }

/-- The time of an operation is what the next reading of the clock would show. -/
def RelayOp.exec (setting : Setting) (w : World) : (o : RelayOp) → Relay → o.Ans × Relay
  | .readStatus dir, relay => ((relay.dirs dir).status, relay)
  | .writeStatus dir contextId updatedAt, relay =>
    ((), relay.update dir fun d => { d with status := some (contextId, updatedAt) })
  | .writeInput dir input, relay =>
    ((), relay.update dir fun d => { d with inputs := d.inputs.insert input })
  | .globInputs dir, relay => ((relay.dirs dir).inputs.sorted.rows.map QueuedInput.eventId, relay)
  | .readInput dir eventId, relay => ((relay.dirs dir).inputs.lookup eventId, relay)
  | .unlinkInput dir eventId, relay =>
    ((), relay.update dir fun d =>
      { d with inputs := d.inputs.filter fun input => input.eventId ≠ eventId })
  | .applyUserInputEvent requestId event, relay =>
    (setting.browser relay.applied.length event,
      { relay with
        applied := relay.applied ++
          [⟨requestId, event, w.requests.lookup requestId, setting.clock w.tick⟩] })

abbrev System := World × Relay

abbrev RelayProg (α : Type) :=
  Prog (StoreOp ⊕ RelayOp) (Sum.elim StoreOp.Ans RelayOp.Ans) Error α

def exec (setting : Setting) :
    (o : StoreOp ⊕ RelayOp) → System → Sum.elim StoreOp.Ans RelayOp.Ans o × System :=
  Prog.execSum (Requests.exec setting.clock) (RelayOp.exec setting)

namespace RelayProg

def store {α : Type} (p : StoreProg α) : RelayProg α := p.inl

def readStatus (dir : String) : RelayProg (Option (String × ℚ)) :=
  .op (.inr (.readStatus dir)) .pure

def writeStatus (dir contextId : String) (updatedAt : ℚ) : RelayProg Unit :=
  .op (.inr (.writeStatus dir contextId updatedAt)) .pure

def writeInput (dir : String) (input : QueuedInput) : RelayProg Unit :=
  .op (.inr (.writeInput dir input)) .pure

def globInputs (dir : String) : RelayProg (List String) := .op (.inr (.globInputs dir)) .pure

def readInput (dir eventId : String) : RelayProg (Option QueuedInput) :=
  .op (.inr (.readInput dir eventId)) .pure

def unlinkInput (dir eventId : String) : RelayProg Unit :=
  .op (.inr (.unlinkInput dir eventId)) .pure

def applyUserInputEvent (requestId : String) (event : InputEvent) : RelayProg Unit :=
  .op (.inr (.applyUserInputEvent requestId event)) .ofExcept

end RelayProg

open RelayProg

def applyInputEvent (requestId : String) (event : InputEvent) : RelayProg Unit := do
  let request ← store (RequestStore.get requestId)
  if request.status ≠ .userControl then .raise ⟨.valueError, "user is not in control"⟩
  else
    .ofExcept (validateInputEvent event)
    applyUserInputEvent requestId event
    store (StoreProg.auditAppend ⟨"takeover_input_event",
      [("request_id", .str requestId), ("origin", .str request.origin),
        ("input_event_type", .str event.eventType)]⟩)

/-- `_safe_id`: the name of the directory of a context. -/
def safeId (py : Interpreter) (value : String) : String :=
  let cleaned := value.map fun c => if py.isAlnum c || c ∈ ['-', '_', '.'] then c else '_'
  if cleaned = "" then "browser" else cleaned

def contextMaxAgeSeconds : ℚ := 120

/-- `get_context(browser_context_id) is not None`. The status of a context lies in its own
directory, so the others need not be listed. -/
def hasContext (py : Interpreter) (contextId : String) : RelayProg Bool := do
  let status ← readStatus (safeId py contextId)
  let now ← store StoreProg.time
  return status.any fun s => s.1 == contextId && decide (now - s.2 ≤ contextMaxAgeSeconds)

/-- `enqueue_input_event`; the generated id is an argument. -/
def enqueueInputEvent (py : Interpreter) (contextId requestId eventId : String) (event : Dict) :
    RelayProg Unit := do
  let createdAt ← store StoreProg.time
  writeInput (safeId py contextId) ⟨eventId, requestId, event, createdAt⟩

/-- The answer to `POST /api/requests/{id}/input`. -/
inductive InputReply where
  | staleTakeoverFrame
  | takeoverCoordinatesOutOfBounds
  | notConnected
  | queued (eventId : String)
  | applied
  deriving DecidableEq, Repr

/-- The two validation errors that are answered with a reply of their own. -/
def validationReply (error : Error) : Option InputReply :=
  if error = ⟨.valueError, "stale takeover frame"⟩ then some .staleTakeoverFrame
  else if error = ⟨.valueError, "takeover coordinates out of frame bounds"⟩ then
    some .takeoverCoordinatesOutOfBounds
  else none

/-- `store.validate_takeover_input` with the `except` clause around it. -/
def validated (requestId : String) (event : InputEvent) : RelayProg (Option InputReply) :=
  ((fun _ => none) <$> store (validateTakeoverInput requestId event)).handle fun error =>
    match validationReply error with
    | some reply => return some reply
    | none => .raise error

/-- The `input` action. A client that waits for the result of a queued event delays only
its own reply. -/
def postInput (setting : Setting) (h : Server.Handler) (requestId eventId : String) (body : Dict) :
    RelayProg InputReply := do
  let request ← store (Server.getRequestForSession h requestId)
  let event ← .ofExcept (eventFromDict setting.py body)
  match ← validated requestId event with
  | some reply => return reply
  | none =>
    if setting.registered request.browserContextId then
      applyInputEvent requestId event
      return .applied
    else
      let contextId := request.browserContextId.getD ""
      if ← hasContext setting.py contextId then
        enqueueInputEvent setting.py contextId requestId eventId body
        return .queued eventId
      else return .notConnected

/-- Read and unlink the files one after the other. -/
def consumeFiles (dir : String) : List String → RelayProg (List QueuedInput)
  | [] => return []
  | eventId :: rest => do
      let payload ← readInput dir eventId
      unlinkInput dir eventId
      let payloads ← consumeFiles dir rest
      return payload.toList ++ payloads

def consumeInputEvents (py : Interpreter) (contextId : String) : RelayProg (List QueuedInput) := do
  let paths ← globInputs (safeId py contextId)
  consumeFiles (safeId py contextId) paths

/-- One round of the loop; every exception ends in the result of the event. -/
def relayInput (py : Interpreter) (payload : QueuedInput) : RelayProg Unit :=
  (do
    let event ← Prog.ofExcept (eventFromDict py payload.event)
    applyInputEvent payload.requestId event).handle fun _ => return ()

def relayInputs (py : Interpreter) : List QueuedInput → RelayProg Unit
  | [] => return ()
  | payload :: rest => do
      relayInput py payload
      relayInputs py rest

def publishBrowserRelayTick (py : Interpreter) (contextId : String) : RelayProg Unit := do
  let now ← store StoreProg.time
  writeStatus (safeId py contextId) contextId now
  let _ ← store (RequestStore.list false)
  relayInputs py (← consumeInputEvents py contextId)

inductive TakeoverCall where
  | store (call : StoreCall)
  | input (h : Server.Handler) (requestId eventId : String) (body : Dict)
  | tick (contextId : String)

def TakeoverCall.prog (setting : Setting) : TakeoverCall → RelayProg Unit
  | .store call => (fun _ => ()) <$> RelayProg.store (call.prog setting.py)
  | .input h requestId eventId body => (fun _ => ()) <$> postInput setting h requestId eventId body
  | .tick contextId => publishBrowserRelayTick setting.py contextId

end OmniDoer.Takeover
