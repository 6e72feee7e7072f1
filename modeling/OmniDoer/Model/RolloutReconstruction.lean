import OmniDoer.Model.Rollout

/-! # Rebuilding a conversation

The model of `codex-rs/core/src/session/rollout_reconstruction.rs` and of the parts of
`codex-rs/core/src/context_manager/history.rs` that it uses. -/

namespace OmniDoer.Conversation

open Rust

/-- What the reconstruction asks of other code: how fragments are recognized and outputs truncated,
and the histories, ids and snapshots that are built or read elsewhere. -/
structure Recognizers (δ : Type) where
  isContextualUserFragment : ContentItem → Bool
  isContextualDevFragment : ContentItem → Bool
  isInterAgentInstructionContent : List ContentItem → Bool
  truncateFunctionOutputPayload : FunctionCallOutputPayload δ → FunctionCallOutputPayload δ
  buildCompactedHistory : List (ResponseItem δ) → Text → List (ResponseItem δ)
  parseUuidV7 : Text → Option Text
  readSnapshot : δ → Option δ
  applyMergePatch : δ → δ → Option δ

section History

variable {δ : Type} (rules : Recognizers δ)

def isContextualUserMessageContent (content : List ContentItem) : Bool :=
  content.any rules.isContextualUserFragment

def isContextualDevMessageContent (content : List ContentItem) : Bool :=
  content.any rules.isContextualDevFragment

def isUserTurnBoundary : ResponseItem δ → Bool
  | .agentMessage .. => true
  | .message _ role content _ _ =>
    (role = "user".toList && !isContextualUserMessageContent rules content) ||
      (role = "assistant".toList && rules.isInterAgentInstructionContent content)
  | _ => false

def userMessagePositions (items : List (ResponseItem δ)) : List ℕ :=
  items.zipIdx.filterMap fun (item, idx) => if isUserTurnBoundary rules item then some idx else none

def isApiMessage : ResponseItem δ → Bool
  | .message _ role _ _ _ => role ≠ "system".toList
  | .compactionTrigger | .other => false
  | _ => true

def processItem : ResponseItem δ → ResponseItem δ
  | .functionCallOutput id callId output metadata =>
      .functionCallOutput id callId (rules.truncateFunctionOutputPayload output) metadata
  | .customToolCallOutput id callId name output metadata =>
    .customToolCallOutput id callId name (rules.truncateFunctionOutputPayload output) metadata
  | item => item

/-- `record_items` for one item. -/
def recordItem (items : List (ResponseItem δ)) (item : ResponseItem δ) : List (ResponseItem δ) :=
  if isApiMessage item then items ++ [processItem rules item] else items

/-- The items that `trim_pre_turn_context_updates` walks over. -/
def isPreTurnContextUpdate : ResponseItem δ → Bool
  | .message _ role content _ _ =>
    (role = "developer".toList && isContextualDevMessageContent rules content) ||
      (role = "user".toList && isContextualUserMessageContent rules content)
  | _ => false

def trimPreTurnContextUpdates (snapshot : List (ResponseItem δ))
    (firstInstructionTurnIdx : ℕ) : ℕ → ℕ
  | 0 => 0
  | cutIdx + 1 =>
    if firstInstructionTurnIdx < cutIdx + 1 ∧
        (snapshot[cutIdx]?).any (isPreTurnContextUpdate rules) then
      trimPreTurnContextUpdates snapshot firstInstructionTurnIdx cutIdx
    else cutIdx + 1

def dropLastNUserTurns (items : List (ResponseItem δ)) (numTurns : ℕ) : List (ResponseItem δ) :=
  if numTurns = 0 then items
  else
    let userPositions := userMessagePositions rules items
    match userPositions with
    | [] => items
    | firstInstructionTurnIdx :: _ =>
      let cutIdx :=
        if numTurns ≥ userPositions.length then firstInstructionTurnIdx
        else userPositions.getD (userPositions.length - numTurns) 0
      items.take (trimPreTurnContextUpdates rules items firstInstructionTurnIdx cutIdx)

end History

structure PreviousTurnSettings where
  model : Text
  compHash : Option Text
  realtimeActive : Option Bool
  deriving DecidableEq

inductive TurnReferenceContextItem (δ : Type) where
  | neverSet
  | cleared
  | latest (item : TurnContextItem δ)
  deriving DecidableEq

structure ReconstructedWindow where
  number : ℕ
  firstId : Option Text
  previousId : Option Text
  id : Option Text
  deriving DecidableEq

structure ActiveReplaySegment (δ : Type) where
  turnId : Option Text := none
  countsAsUserTurn : Bool := false
  previousTurnSettings : Option PreviousTurnSettings := none
  referenceContextItem : TurnReferenceContextItem δ := .neverSet
  worldStateReplay : List (RolloutItem δ) := []
  baseReplacementHistory : Option (List (ResponseItem δ)) := none
  window : Option ReconstructedWindow := none

def turnIdsAreCompatible (activeTurnId itemTurnId : Option Text) : Bool :=
  match activeTurnId, itemTurnId with
  | some turnId, some itemTurnId => itemTurnId = turnId
  | _, _ => true

/-- The variables of the reverse loop. -/
structure Scan (δ : Type) where
  baseReplacementHistory : Option (List (ResponseItem δ)) := none
  previousTurnSettings : Option PreviousTurnSettings := none
  referenceContextItem : TurnReferenceContextItem δ := .neverSet
  worldStateReplay : List (RolloutItem δ) := []
  window : Option ReconstructedWindow := none
  pendingRollbackTurns : ℕ := 0
  rolloutSuffix : List (RolloutItem δ)
  activeSegment : Option (ActiveReplaySegment δ) := none

section Scan

variable {δ : Type} (rules : Recognizers δ)

def finalizeActiveSegment (scan : Scan δ) (segment : ActiveReplaySegment δ) : Scan δ :=
  if 0 < scan.pendingRollbackTurns then
    { scan with
      pendingRollbackTurns :=
        if segment.countsAsUserTurn then scan.pendingRollbackTurns - 1
        else scan.pendingRollbackTurns }
  else
    { scan with
      worldStateReplay := scan.worldStateReplay ++ segment.worldStateReplay
      baseReplacementHistory := scan.baseReplacementHistory.or segment.baseReplacementHistory
      window := scan.window.or segment.window
      previousTurnSettings :=
        if scan.previousTurnSettings = none ∧ segment.countsAsUserTurn then
          segment.previousTurnSettings
        else scan.previousTurnSettings
      referenceContextItem :=
        match scan.referenceContextItem, segment.countsAsUserTurn, segment.referenceContextItem with
        | .neverSet, true, item => item
        | .neverSet, false, .cleared => .cleared
        | item, _, _ => item }

def Scan.segment (scan : Scan δ) : ActiveReplaySegment δ := scan.activeSegment.getD {}

/-- `active_segment.get_or_insert_with(..)`, changed by `f`. -/
def Scan.inSegment (scan : Scan δ) (f : ActiveReplaySegment δ → ActiveReplaySegment δ) : Scan δ :=
  { scan with activeSegment := some (f scan.segment) }

def reconstructedWindow (compacted : CompactedItem δ) : Option ReconstructedWindow :=
  compacted.windowNumber.map fun number =>
    { number
      firstId := compacted.firstWindowId.bind rules.parseUuidV7
      previousId := compacted.previousWindowId.bind rules.parseUuidV7
      id := compacted.windowId.bind rules.parseUuidV7 }

def ActiveReplaySegment.compact (segment : ActiveReplaySegment δ) (compacted : CompactedItem δ) :
    ActiveReplaySegment δ :=
  { segment with
    worldStateReplay := segment.worldStateReplay ++ [.compacted compacted]
    window := segment.window.or (reconstructedWindow rules compacted)
    referenceContextItem :=
      match segment.referenceContextItem with
      | .neverSet => .cleared
      | item => item
    baseReplacementHistory := segment.baseReplacementHistory.or compacted.replacementHistory }

def ActiveReplaySegment.context (segment : ActiveReplaySegment δ) (ctx : TurnContextItem δ) :
    ActiveReplaySegment δ :=
  let segment := { segment with turnId := segment.turnId.or ctx.turnId }
  if turnIdsAreCompatible segment.turnId ctx.turnId then
    { segment with
      previousTurnSettings := some ⟨ctx.model, ctx.compHash, ctx.realtimeActive⟩
      referenceContextItem :=
        match segment.referenceContextItem with
        | .neverSet => .latest ctx
        | item => item }
  else segment

/-- One step of the loop at `item`, where `newer` are the items after it. -/
def scanItem (scan : Scan δ) (item : RolloutItem δ) (newer : List (RolloutItem δ)) : Scan δ :=
  match item with
  | .compacted compacted =>
    { scan.inSegment (·.compact rules compacted) with
      rolloutSuffix :=
        if scan.segment.baseReplacementHistory = none ∧
            compacted.replacementHistory.isSome then newer
        else scan.rolloutSuffix }
  | .eventMsg (.threadRolledBack numTurns) =>
    { scan with pendingRollbackTurns := scan.pendingRollbackTurns + numTurns }
  | .eventMsg (.turnComplete event) => scan.inSegment fun segment =>
      { segment with turnId := segment.turnId.or (some event.turnId) }
  | .eventMsg (.turnAborted event) =>
    match scan.activeSegment, event.turnId with
    | some segment, turnId =>
      { scan with activeSegment := some { segment with turnId := segment.turnId.or turnId } }
    | none, some turnId => { scan with activeSegment := some { turnId := some turnId } }
    | none, none => scan
  | .eventMsg (.userMessage _) => scan.inSegment fun segment =>
    { segment with countsAsUserTurn := true }
  | .turnContext ctx => scan.inSegment (·.context ctx)
  | .worldState full state => scan.inSegment fun segment =>
      { segment with worldStateReplay := segment.worldStateReplay ++ [.worldState full state] }
  | .eventMsg (.turnStarted event) =>
    match scan.activeSegment with
    | some segment =>
      if turnIdsAreCompatible segment.turnId (some event.turnId) then
        finalizeActiveSegment { scan with activeSegment := none } segment
      else scan
    | none => scan
  | .responseItem responseItem => scan.inSegment fun segment =>
      { segment with
        countsAsUserTurn := segment.countsAsUserTurn || isUserTurnBoundary rules responseItem }
  | .interAgentCommunication .. => scan.inSegment fun segment =>
    { segment with countsAsUserTurn := true }
  | .eventMsg _ | .sessionMeta _ | .interAgentCommunicationMetadata _ => scan

/-- The scan knows the history base and the metadata. -/
def Scan.isComplete (scan : Scan δ) : Bool :=
  scan.baseReplacementHistory.isSome && scan.previousTurnSettings.isSome &&
    match scan.referenceContextItem with
    | .neverSet => false
    | _ => true

/-- The loop over the items from the newest on; `newer` are those it has passed. -/
def scanItems (scan : Scan δ) (newer : List (RolloutItem δ)) : List (RolloutItem δ) → Scan δ
  | [] => scan
  | item :: older =>
    let scan := scanItem rules scan item newer
    if scan.isComplete then scan else scanItems scan (item :: newer) older

def Scan.finish (scan : Scan δ) : Scan δ :=
  match scan.activeSegment with
  | some segment => finalizeActiveSegment { scan with activeSegment := none } segment
  | none => scan

end Scan

section Replay

variable {δ : Type} (rules : Recognizers δ)

/-- The history, and whether a compaction without replacement history was seen. -/
structure Replay (δ : Type) where
  history : List (ResponseItem δ)
  sawLegacyCompaction : Bool := false

def replayItem (replay : Replay δ) : RolloutItem δ → Replay δ
  | .responseItem responseItem =>
    { replay with history := recordItem rules replay.history responseItem }
  | .interAgentCommunication id author recipient content metadata =>
    { replay with
      history :=
        recordItem rules replay.history (.agentMessage id author recipient content metadata) }
  | .compacted compacted =>
    match compacted.replacementHistory with
    | some replacementHistory => { replay with history := replacementHistory }
    | none =>
      { history := rules.buildCompactedHistory replay.history compacted.message,
        sawLegacyCompaction := true }
  | .eventMsg (.threadRolledBack numTurns) =>
    { replay with history := dropLastNUserTurns rules replay.history numTurns }
  | .interAgentCommunicationMetadata _ | .eventMsg _ | .turnContext _ | .worldState _ _ |
    .sessionMeta _ => replay

def replayItems (replay : Replay δ) (items : List (RolloutItem δ)) : Replay δ :=
  items.foldl (replayItem rules) replay

def replayWorldState (baseline : Option δ) : RolloutItem δ → Option δ
  | .compacted _ => none
  | .worldState true state => rules.readSnapshot state
  | .worldState false state => baseline.bind (rules.applyMergePatch · state)
  | _ => baseline

structure RolloutReconstruction (δ : Type) where
  history : List (ResponseItem δ)
  previousTurnSettings : Option PreviousTurnSettings
  referenceContextItem : Option (TurnContextItem δ)
  worldStateBaseline : Option δ
  window : ReconstructedWindow

def TurnReferenceContextItem.item : TurnReferenceContextItem δ → Option (TurnContextItem δ)
  | .latest item => some item
  | _ => none

def isCompacted : RolloutItem δ → Bool
  | .compacted _ => true
  | _ => false

def initialWindow (rolloutItems : List (RolloutItem δ)) : Option ReconstructedWindow :=
  let isLegacy : RolloutItem δ → Bool
    | .compacted compacted => compacted.windowNumber.isNone
    | _ => false
  if rolloutItems.any isLegacy then none
  else rolloutItems.findSome? fun
    | .sessionMeta windowId => (windowId.bind rules.parseUuidV7).map fun id =>
      ⟨0, some id, none, some id⟩
    | _ => none

def reconstructHistoryFromRollout (rolloutItems : List (RolloutItem δ)) : RolloutReconstruction δ :=
  let scan := (scanItems rules { rolloutSuffix := rolloutItems } [] rolloutItems.reverse).finish
  let replay :=
    replayItems rules { history := scan.baseReplacementHistory.getD [] } scan.rolloutSuffix
  { history := replay.history
    previousTurnSettings := scan.previousTurnSettings
    referenceContextItem :=
      if replay.sawLegacyCompaction then none else scan.referenceContextItem.item
    worldStateBaseline := scan.worldStateReplay.reverse.foldl (replayWorldState rules) none
    window := (scan.window.or (initialWindow rules rolloutItems)).getD
      ⟨(rolloutItems.filter isCompacted).length, none, none, none⟩ }

end Replay

end OmniDoer.Conversation
