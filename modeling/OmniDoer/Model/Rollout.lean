import OmniDoer.Model.ResponseItem

/-! # Rollouts

The model of `RolloutItem` and `EventMsg` in `codex-rs/protocol/src/protocol.rs`: what a thread
records. As in the items of a conversation, `δ` stands for data that nothing here looks into. -/

namespace OmniDoer.Conversation

open Rust

structure TurnStartedEvent where
  turnId : Text
  startedAt : Option ℤ := none
  deriving DecidableEq

structure TurnErrorInfo (δ : Type) where
  message : Text
  codexErrorInfo : Option δ
  deriving DecidableEq

structure TurnCompleteEvent (δ : Type) where
  turnId : Text
  error : Option (TurnErrorInfo δ) := none
  completedAt : Option ℤ := none
  durationMs : Option ℤ := none
  deriving DecidableEq

structure TurnAbortedEvent where
  turnId : Option Text
  completedAt : Option ℤ := none
  durationMs : Option ℤ := none
  deriving DecidableEq

structure UserMessageEvent (δ : Type) where
  clientId : Option Text := none
  message : Text
  textElements : List δ := []
  images : Option (List Text) := none
  imageDetails : List (Option δ) := []
  localImages : List Text := []
  localImageDetails : List (Option δ) := []
  audio : Option (List Text) := none
  localAudio : List Text := []
  deriving DecidableEq

/-- The events whose payload alone gives one item of the thread. -/
inductive ItemEvent where
  | webSearchBegin
  | webSearchEnd
  | execCommandBegin
  | execCommandEnd
  | applyPatchApprovalRequest
  | patchApplyBegin
  | patchApplyEnd
  | dynamicToolCallRequest
  | dynamicToolCallResponse
  | mcpToolCallBegin
  | mcpToolCallEnd
  | viewImageToolCall
  | imageGenerationBegin
  | imageGenerationEnd
  | collabAgentSpawnBegin
  | collabAgentSpawnEnd
  | collabAgentInteractionBegin
  | collabAgentInteractionEnd
  | subAgentActivity
  | collabWaitingBegin
  | collabWaitingEnd
  | collabCloseBegin
  | collabCloseEnd
  | collabResumeBegin
  | collabResumeEnd
  deriving DecidableEq

/-- The items of a turn that are recorded as they are. -/
inductive MaterializedItem where
  | hookPrompt
  | commandExecution
  | dynamicToolCall
  | collabAgentToolCall
  | subAgentActivity
  | extension
  deriving DecidableEq

/-- `TurnItem`. Those that are also recorded as legacy events are `legacy`. -/
inductive TurnItem (δ : Type) where
  | plan (id text : Text)
  | enteredReviewMode (id review : Text)
  | exitedReviewMode (id review : Text)
  | contextCompaction (id : Text) (summary : Option Text)
  | materialized (kind : MaterializedItem) (id : Text) (details : δ)
  | legacy (details : δ)
  deriving DecidableEq

inductive EventMsg (δ : Type) where
  | userMessage (payload : UserMessageEvent δ)
  | agentMessage (message : Text) (details : δ)
  | agentReasoning (text : Text)
  | agentReasoningRawContent (text : Text)
  | item (event : ItemEvent) (turnId itemId : Text) (details : δ)
  /-- The item is what `build_item_from_guardian_event` makes, and none for an approval. -/
  | guardianAssessment (turnId : Text) (item : Option (Text × δ))
  | contextCompacted (message : Option Text)
  | enteredReviewMode (turnId itemId userFacingHint : Option Text)
  | exitedReviewMode (turnId itemId : Option Text) (reviewOutputText : Text)
  | itemStarted (turnId : Text) (item : TurnItem δ)
  | itemCompleted (turnId : Text) (item : TurnItem δ)
  | error (affectsTurnStatus : Bool) (info : TurnErrorInfo δ)
  | threadRolledBack (numTurns : ℕ)
  | turnAborted (payload : TurnAbortedEvent)
  | turnStarted (payload : TurnStartedEvent)
  | turnComplete (payload : TurnCompleteEvent δ)
  | other
  deriving DecidableEq

structure CompactedItem (δ : Type) where
  message : Text
  replacementHistory : Option (List (ResponseItem δ))
  windowNumber : Option ℕ := none
  firstWindowId : Option Text := none
  previousWindowId : Option Text := none
  windowId : Option Text := none
  deriving DecidableEq

structure TurnContextItem (δ : Type) where
  turnId : Option Text
  model : Text
  compHash : Option Text := none
  realtimeActive : Option Bool := none
  details : δ
  deriving DecidableEq

inductive RolloutItem (δ : Type) where
  /-- The id of the first window of the session, if its metadata has one. -/
  | sessionMeta (windowId : Option Text)
  | responseItem (item : ResponseItem δ)
  | interAgentCommunication (id : Option Text) (author recipient : Text) (content : List δ)
    (metadata : Option δ)
  | interAgentCommunicationMetadata (triggerTurn : Bool)
  | compacted (item : CompactedItem δ)
  | turnContext (item : TurnContextItem δ)
  | worldState (full : Bool) (state : δ)
  | eventMsg (event : EventMsg δ)
  deriving DecidableEq

end OmniDoer.Conversation
