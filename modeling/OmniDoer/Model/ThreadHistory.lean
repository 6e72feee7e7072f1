import OmniDoer.Model.Rollout
import Mathlib.Algebra.GroupWithZero.Nat

/-! # The turns of a thread

The model of `codex-rs/app-server-protocol/src/protocol/thread_history.rs`: how recorded items
become turns, and the changes that are noted on the way. -/

namespace OmniDoer.Conversation

open Rust

inductive UserInput (δ : Type) where
  | text (text : Text) (textElements : List δ)
  | image (url : Text) (detail : Option δ)
  | localImage (path : Text) (detail : Option δ)
  | audio (url : Text)
  | localAudio (path : Text)
  deriving DecidableEq

inductive ThreadItem (δ : Type) where
  | userMessage (id : Text) (clientId : Option Text) (content : List (UserInput δ))
  | agentMessage (id text : Text) (details : δ)
  | reasoning (id : Text) (summary content : List Text)
  | hookPrompt (id : Text) (details : δ)
  | plan (id text : Text)
  | enteredReviewMode (id review : Text)
  | exitedReviewMode (id review : Text)
  | contextCompaction (id : Text) (summary : Option Text)
  | other (id : Text) (details : δ)
  deriving DecidableEq

def ThreadItem.id {δ : Type} : ThreadItem δ → Text
  | .userMessage id .. | .agentMessage id .. | .reasoning id .. | .hookPrompt id .. | .plan id ..
  | .enteredReviewMode id .. | .exitedReviewMode id .. | .contextCompaction id .. | .other id .. =>
    id

inductive TurnStatus where
  | completed
  | interrupted
  | failed
  | inProgress
  deriving DecidableEq

/-- What a turn is besides its items: the fields of `ThreadHistoryTurnChange`. -/
structure TurnMeta (δ : Type) where
  id : Text
  status : TurnStatus := .completed
  error : Option (TurnErrorInfo δ) := none
  startedAt : Option ℤ := none
  completedAt : Option ℤ := none
  durationMs : Option ℤ := none
  deriving DecidableEq

structure Turn (δ : Type) extends TurnMeta δ where
  items : List (ThreadItem δ) := []
  deriving DecidableEq

structure PendingTurn (δ : Type) extends Turn δ where
  openedExplicitly : Bool := false
  sawCompaction : Bool := false
  deriving DecidableEq

structure ThreadHistoryItemChange (δ : Type) where
  turnId : Text
  item : ThreadItem δ
  deriving DecidableEq

structure ThreadHistoryChangeSet (δ : Type) where
  changedItems : List (ThreadHistoryItemChange δ) := []
  changedTurns : List (TurnMeta δ) := []
  removedTurnIds : List Text := []
  deriving DecidableEq

/-- The builder, with the changes that the item at hand has made so far. -/
structure ThreadHistoryBuilder (δ : Type) where
  turns : List (Turn δ) := []
  currentTurn : Option (PendingTurn δ) := none
  nextItemIndex : ℕ := 1
  nextRolloutIndex : ℕ := 0
  currentRolloutIndex : ℕ := 0
  changes : ThreadHistoryChangeSet δ := {}

/-- What the builder asks of other code: the fragments of a hook prompt, and the id of one without
an id. -/
structure HookPrompts (δ : Type) where
  parse : List ContentItem → Option δ
  newItemId : ℕ → Text

variable {δ : Type}

namespace ThreadHistoryBuilder

def recordChangedItem (builder : ThreadHistoryBuilder δ) (turnId : Text) (item : ThreadItem δ) :
    ThreadHistoryBuilder δ :=
  { builder with changes.changedItems := builder.changes.changedItems ++ [⟨turnId, item⟩] }

def recordChangedTurn (builder : ThreadHistoryBuilder δ) (turn : TurnMeta δ) :
    ThreadHistoryBuilder δ :=
  { builder with changes.changedTurns := builder.changes.changedTurns ++ [turn] }

def recordRemovedTurnIds (builder : ThreadHistoryBuilder δ) (turnIds : List Text) :
    ThreadHistoryBuilder δ :=
  { builder with changes.removedTurnIds := builder.changes.removedTurnIds ++ turnIds }

def finishCurrentTurn (builder : ThreadHistoryBuilder δ) : ThreadHistoryBuilder δ :=
  match builder.currentTurn with
  | none => builder
  | some turn =>
    if turn.items.isEmpty && !turn.openedExplicitly && !turn.sawCompaction then
      { builder with currentTurn := none }
    else { builder with currentTurn := none, turns := builder.turns ++ [turn.toTurn] }

/-- The id of a turn that no event has named. -/
def implicitTurnId (builder : ThreadHistoryBuilder δ) : Text :=
  "rollout-".toList ++ Nat.toDigits 10 builder.currentRolloutIndex

def openTurn (builder : ThreadHistoryBuilder δ) (turn : PendingTurn δ) : ThreadHistoryBuilder δ :=
  { builder.recordChangedTurn turn.toTurnMeta with currentTurn := some turn }

/-- `ensure_turn`: the builder with a current turn, and that turn. -/
def ensureTurn (builder : ThreadHistoryBuilder δ) : ThreadHistoryBuilder δ × PendingTurn δ :=
  match builder.currentTurn with
  | some turn => (builder, turn)
  | none =>
    let turn : PendingTurn δ := { id := builder.implicitTurnId }
    (builder.openTurn turn, turn)

def upsertTurnItem (items : List (ThreadItem δ)) (item : ThreadItem δ) : List (ThreadItem δ) :=
  match items.findIdx? (·.id = item.id) with
  | some index => items.set index item
  | none => items ++ [item]

def setCurrentItems (builder : ThreadHistoryBuilder δ) (turn : PendingTurn δ)
    (items : List (ThreadItem δ)) : ThreadHistoryBuilder δ :=
  { builder with currentTurn := some { turn with items } }

def pushItemInCurrentTurn (builder : ThreadHistoryBuilder δ) (item : ThreadItem δ) :
    ThreadHistoryBuilder δ :=
  let (builder, turn) := builder.ensureTurn
  (builder.setCurrentItems turn (turn.items ++ [item])).recordChangedItem turn.id item

def upsertItemInCurrentTurn (builder : ThreadHistoryBuilder δ) (item : ThreadItem δ) :
    ThreadHistoryBuilder δ :=
  let (builder, turn) := builder.ensureTurn
  (builder.setCurrentItems turn (upsertTurnItem turn.items item)).recordChangedItem turn.id item

/-- Changes the first finished turn with the id. -/
def modifyTurn (turns : List (Turn δ)) (turnId : Text) (f : Turn δ → Turn δ) : List (Turn δ) :=
  match turns with
  | [] => []
  | turn :: turns => if turn.id = turnId then f turn :: turns else turn :: modifyTurn turns turnId f

def upsertItemInTurnId (builder : ThreadHistoryBuilder δ) (turnId : Text) (item : ThreadItem δ) :
    ThreadHistoryBuilder δ :=
  match builder.currentTurn.filter (·.id = turnId) with
  | some turn =>
    (builder.setCurrentItems turn (upsertTurnItem turn.items item)).recordChangedItem turn.id item
  | none =>
    if builder.turns.any (·.id = turnId) then
      { builder with
        turns := modifyTurn builder.turns turnId fun turn =>
          { turn with items := upsertTurnItem turn.items item }
      }.recordChangedItem turnId item
    else builder

def upsertItem (builder : ThreadHistoryBuilder δ) (turnId : Text) (item : ThreadItem δ) :
    ThreadHistoryBuilder δ :=
  if turnId.isEmpty then builder.upsertItemInCurrentTurn item
  else builder.upsertItemInTurnId turnId item

def nextItemId (builder : ThreadHistoryBuilder δ) : ThreadHistoryBuilder δ × Text :=
  ({ builder with nextItemIndex := builder.nextItemIndex + 1 },
    "item-".toList ++ Nat.toDigits 10 builder.nextItemIndex)

def buildUserInputs (payload : UserMessageEvent δ) : List (UserInput δ) :=
  (if (trim payload.message).isEmpty then [] else [.text payload.message payload.textElements]) ++
    ((payload.images.getD []).zipIdx.map fun (image, idx) =>
      .image image (payload.imageDetails[idx]?.join)) ++
    (payload.localImages.zipIdx.map fun (path, idx) =>
      .localImage path (payload.localImageDetails[idx]?.join)) ++
    (payload.audio.getD []).map .audio ++ payload.localAudio.map .localAudio

def handleUserMessage (builder : ThreadHistoryBuilder δ) (payload : UserMessageEvent δ) :
    ThreadHistoryBuilder δ :=
  let builder :=
    match builder.currentTurn with
    | some turn =>
      if !turn.openedExplicitly &&
          !(turn.sawCompaction && turn.items.isEmpty) then builder.finishCurrentTurn else builder
    | none => builder
  let (builder, id) := builder.nextItemId
  builder.pushItemInCurrentTurn (.userMessage id payload.clientId (buildUserInputs payload))

def handleAgentMessage (builder : ThreadHistoryBuilder δ) (text : Text) (details : δ) :
    ThreadHistoryBuilder δ :=
  if text.isEmpty then builder
  else
    let (builder, id) := builder.nextItemId
    builder.pushItemInCurrentTurn (.agentMessage id text details)

/-- The two handlers of reasoning texts: the text is added to a reasoning item at the end of the
turn, or becomes a new one. -/
def handleReasoning (builder : ThreadHistoryBuilder δ) (text : Text)
    (add : List Text → List Text → ThreadItem δ → ThreadItem δ)
    (new : Text → ThreadItem δ) : ThreadHistoryBuilder δ :=
  if text.isEmpty then builder
  else
    let (builder, turn) := builder.ensureTurn
    match turn.items.getLast? with
    | some (.reasoning id summary content) =>
      let item := add summary content (.reasoning id summary content)
      (builder.setCurrentItems turn (turn.items.dropLast ++ [item])).recordChangedItem turn.id item
    | _ =>
      let (builder, id) := builder.nextItemId
      builder.pushItemInCurrentTurn (new id)

def handleAgentReasoning (builder : ThreadHistoryBuilder δ) (text : Text) :
    ThreadHistoryBuilder δ :=
  builder.handleReasoning text
    (fun summary content item => .reasoning item.id (summary ++ [text]) content) fun id =>
      .reasoning id [text] []

def handleAgentReasoningRawContent (builder : ThreadHistoryBuilder δ) (text : Text) :
    ThreadHistoryBuilder δ :=
  builder.handleReasoning text
    (fun summary content item => .reasoning item.id summary (content ++ [text])) fun id =>
      .reasoning id [] [text]

/-- Which turn the handler of an event puts its item into. -/
inductive Route where
  | currentTurn
  | turnId
  | turnIdIfAny

def route : ItemEvent → Route
  | .execCommandBegin | .execCommandEnd => .turnId
  | .applyPatchApprovalRequest | .patchApplyBegin | .patchApplyEnd | .dynamicToolCallRequest
  | .dynamicToolCallResponse => .turnIdIfAny
  | .webSearchBegin | .webSearchEnd | .mcpToolCallBegin | .mcpToolCallEnd | .viewImageToolCall
  | .imageGenerationBegin | .imageGenerationEnd | .collabAgentSpawnBegin | .collabAgentSpawnEnd
  | .collabAgentInteractionBegin | .collabAgentInteractionEnd | .subAgentActivity
  | .collabWaitingBegin | .collabWaitingEnd | .collabCloseBegin | .collabCloseEnd
  | .collabResumeBegin | .collabResumeEnd => .currentTurn

def handleItemEvent (builder : ThreadHistoryBuilder δ) (event : ItemEvent) (turnId : Text)
    (item : ThreadItem δ) : ThreadHistoryBuilder δ :=
  match route event with
  | .currentTurn => builder.upsertItemInCurrentTurn item
  | .turnId => builder.upsertItemInTurnId turnId item
  | .turnIdIfAny => builder.upsertItem turnId item

def upsertContextCompactionMarker (builder : ThreadHistoryBuilder δ) (summary : Option Text) :
    ThreadHistoryBuilder δ :=
  let (builder, turn) := builder.ensureTurn
  let turn := { turn with sawCompaction := true }
  let isMarker : ThreadItem δ → Bool
    | .contextCompaction .. => true
    | _ => false
  match turn.items.reverse.findIdx? isMarker with
  | some index =>
    let items := turn.items.reverse.modify index fun
      | .contextCompaction id existingSummary => .contextCompaction id (existingSummary.or summary)
      | item => item
    builder.setCurrentItems turn items.reverse
  | none =>
    let (builder, id) := builder.nextItemId
    builder.setCurrentItems turn (turn.items ++ [.contextCompaction id summary])

def upsertReviewModeItem (builder : ThreadHistoryBuilder δ) (turnId : Option Text)
    (item : ThreadItem δ) : ThreadHistoryBuilder δ :=
  match turnId with
  | none => builder.upsertItemInCurrentTurn item
  | some turnId =>
    let builder :=
      if !builder.currentTurn.any (·.id = turnId) && !builder.turns.any (·.id = turnId) then
        builder.finishCurrentTurn.openTurn { id := turnId }
      else builder
    builder.upsertItemInTurnId turnId item

def handleEnteredReviewMode (builder : ThreadHistoryBuilder δ)
    (turnId itemId userFacingHint : Option Text) : ThreadHistoryBuilder δ :=
  let review := userFacingHint.getD "Review requested.".toList
  let (builder, id) := match itemId with
    | some id => (builder, id)
    | none => builder.nextItemId
  builder.upsertReviewModeItem turnId (.enteredReviewMode id review)

def handleExitedReviewMode (builder : ThreadHistoryBuilder δ) (turnId itemId : Option Text)
    (review : Text) : ThreadHistoryBuilder δ :=
  let (builder, id) := match itemId with
    | some id => (builder, id)
    | none => builder.nextItemId
  builder.upsertReviewModeItem turnId (.exitedReviewMode id review)

def handleMaterializedItemLifecycle (builder : ThreadHistoryBuilder δ) (turnId : Text) :
    TurnItem δ → ThreadHistoryBuilder δ
  | .plan id text =>
    if text.isEmpty then builder else builder.upsertItemInTurnId turnId (.plan id text)
  | .enteredReviewMode id review =>
    builder.upsertReviewModeItem (some turnId) (.enteredReviewMode id review)
  | .exitedReviewMode id review =>
    builder.upsertReviewModeItem (some turnId) (.exitedReviewMode id review)
  | .contextCompaction id summary =>
    builder.upsertItemInTurnId turnId (.contextCompaction id summary)
  | .materialized .hookPrompt id details =>
    builder.upsertItemInTurnId turnId (.hookPrompt id details)
  | .materialized _ id details => builder.upsertItemInTurnId turnId (.other id details)
  | .legacy _ => builder

/-- Changes the current turn and reports it. -/
def changeCurrentTurn (builder : ThreadHistoryBuilder δ) (turn : PendingTurn δ)
    (f : TurnMeta δ → TurnMeta δ) : ThreadHistoryBuilder δ :=
  { builder with currentTurn := some { turn with toTurnMeta := f turn.toTurnMeta }
  }.recordChangedTurn (f turn.toTurnMeta)

/-- Changes the first finished turn with the id and reports it. -/
def changeTurn (builder : ThreadHistoryBuilder δ) (turn : Turn δ) (f : TurnMeta δ → TurnMeta δ) :
    ThreadHistoryBuilder δ :=
  { builder with
    turns := modifyTurn builder.turns turn.id fun turn =>
      { turn with toTurnMeta := f turn.toTurnMeta }
  }.recordChangedTurn (f turn.toTurnMeta)

def handleError (builder : ThreadHistoryBuilder δ) (affectsTurnStatus : Bool)
    (info : TurnErrorInfo δ) : ThreadHistoryBuilder δ :=
  if !affectsTurnStatus then builder
  else match builder.currentTurn with
    | none => builder
    | some turn => builder.changeCurrentTurn turn fun turn =>
      { turn with status := .failed, error := some info }

def applyAbort (payload : TurnAbortedEvent) (turn : TurnMeta δ) : TurnMeta δ :=
  { turn with
    status := .interrupted
    completedAt := payload.completedAt
    durationMs := payload.durationMs }

def handleTurnAborted (builder : ThreadHistoryBuilder δ) (payload : TurnAbortedEvent) :
    ThreadHistoryBuilder δ :=
  let named := payload.turnId.bind fun turnId => builder.currentTurn.filter (·.id = turnId)
  match named, payload.turnId.bind fun turnId => builder.turns.find? (·.id = turnId),
    builder.currentTurn with
  | some turn, _, _ => builder.changeCurrentTurn turn (applyAbort payload)
  | none, some turn, _ => builder.changeTurn turn (applyAbort payload)
  | none, none, some turn => builder.changeCurrentTurn turn (applyAbort payload)
  | none, none, none => builder

def handleTurnStarted (builder : ThreadHistoryBuilder δ) (payload : TurnStartedEvent) :
    ThreadHistoryBuilder δ :=
  builder.finishCurrentTurn.openTurn
    { id := payload.turnId, status := .inProgress, startedAt := payload.startedAt,
      openedExplicitly := true }

def applyCompletion (payload : TurnCompleteEvent δ) (turn : TurnMeta δ) : TurnMeta δ :=
  let turn := match payload.error, turn.status with
    | some error, _ => { turn with status := .failed, error := some error }
    | none, .completed | none, .inProgress => { turn with status := .completed }
    | none, _ => turn
  { turn with completedAt := payload.completedAt, durationMs := payload.durationMs }

def handleTurnComplete (builder : ThreadHistoryBuilder δ) (payload : TurnCompleteEvent δ) :
    ThreadHistoryBuilder δ :=
  match builder.currentTurn.filter (·.id = payload.turnId),
    builder.turns.find? (·.id = payload.turnId),
    builder.currentTurn with
  | some turn, _, _ => (builder.changeCurrentTurn turn (applyCompletion payload)).finishCurrentTurn
  | none, some turn, _ => builder.changeTurn turn (applyCompletion payload)
  | none, none, some turn =>
    (builder.changeCurrentTurn turn (applyCompletion payload)).finishCurrentTurn
  | none, none, none => builder

def handleCompacted (builder : ThreadHistoryBuilder δ) (payload : CompactedItem δ) :
    ThreadHistoryBuilder δ :=
  builder.upsertContextCompactionMarker
    (if payload.message.isEmpty then none else some payload.message)

def handleThreadRollback (builder : ThreadHistoryBuilder δ) (numTurns : ℕ) :
    ThreadHistoryBuilder δ :=
  let builder := builder.finishCurrentTurn
  let removed := builder.turns.drop (builder.turns.length - numTurns)
  let turns := builder.turns.take (builder.turns.length - numTurns)
  { builder.recordRemovedTurnIds (removed.map (·.id)) with
    turns
    nextItemIndex := (turns.map (·.items.length)).sum + 1 }

def handleResponseItem (hooks : HookPrompts δ) (builder : ThreadHistoryBuilder δ) :
    ResponseItem δ → ThreadHistoryBuilder δ
  | .message id role content _ _ =>
    if role ≠ "user".toList then builder
    else match hooks.parse content with
      | some details => builder.pushItemInCurrentTurn
          (.hookPrompt (id.getD (hooks.newItemId builder.currentRolloutIndex)) details)
      | none => builder
  | _ => builder

def handleEvent (builder : ThreadHistoryBuilder δ) : EventMsg δ → ThreadHistoryBuilder δ
  | .userMessage payload => builder.handleUserMessage payload
  | .agentMessage message details => builder.handleAgentMessage message details
  | .agentReasoning text => builder.handleAgentReasoning text
  | .agentReasoningRawContent text => builder.handleAgentReasoningRawContent text
  | .item event turnId itemId details =>
    builder.handleItemEvent event turnId (.other itemId details)
  | .guardianAssessment _ none => builder
  | .guardianAssessment turnId (some (itemId, details)) =>
    builder.upsertItem turnId (.other itemId details)
  | .contextCompacted message => builder.upsertContextCompactionMarker message
  | .enteredReviewMode turnId itemId hint => builder.handleEnteredReviewMode turnId itemId hint
  | .exitedReviewMode turnId itemId review => builder.handleExitedReviewMode turnId itemId review
  | .itemStarted turnId item | .itemCompleted turnId item =>
    builder.handleMaterializedItemLifecycle turnId item
  | .error affectsTurnStatus info => builder.handleError affectsTurnStatus info
  | .threadRolledBack numTurns => builder.handleThreadRollback numTurns
  | .turnAborted payload => builder.handleTurnAborted payload
  | .turnStarted payload => builder.handleTurnStarted payload
  | .turnComplete payload => builder.handleTurnComplete payload
  | .other => builder

def handleRolloutItem (hooks : HookPrompts δ) (builder : ThreadHistoryBuilder δ)
    (item : RolloutItem δ) : ThreadHistoryBuilder δ :=
  let builder :=
    { builder with
      currentRolloutIndex := builder.nextRolloutIndex
      nextRolloutIndex := builder.nextRolloutIndex + 1 }
  match item with
  | .eventMsg event => builder.handleEvent event
  | .compacted payload => builder.handleCompacted payload
  | .responseItem item => builder.handleResponseItem hooks item
  | .interAgentCommunication .. | .interAgentCommunicationMetadata _ | .turnContext _ |
    .worldState .. | .sessionMeta _ =>
    builder

def finish (builder : ThreadHistoryBuilder δ) : List (Turn δ) := builder.finishCurrentTurn.turns

end ThreadHistoryBuilder

def buildTurnsFromRolloutItems (hooks : HookPrompts δ) (items : List (RolloutItem δ)) :
    List (Turn δ) :=
  (items.foldl (ThreadHistoryBuilder.handleRolloutItem hooks) {}).finish

end OmniDoer.Conversation
