import OmniDoer.Library.RustText

/-! # Items of a conversation

The model of `ResponseItem` in `codex-rs/protocol/src/models.rs` and of
`codex-rs/core/src/context_manager/normalize.rs`. The type `δ` stands for the data of an item that
nothing here looks into: arguments, tools, metadata. -/

namespace OmniDoer.Conversation

open Rust

inductive ContentItem where
  | inputText (text : Text)
  | inputImage (imageUrl : Text)
  | inputAudio (audioUrl : Text)
  | outputText (text : Text)
  deriving DecidableEq

inductive FunctionCallOutputBody (δ : Type) where
  | text (content : Text)
  | contentItems (items : List δ)
  deriving DecidableEq

structure FunctionCallOutputPayload (δ : Type) where
  body : FunctionCallOutputBody δ
  success : Option Bool
  deriving DecidableEq

def FunctionCallOutputPayload.fromText {δ : Type} (content : Text) : FunctionCallOutputPayload δ :=
  ⟨.text content, none⟩

inductive ResponseItem (δ : Type) where
  | additionalTools (id : Option Text) (role : Text) (tools : List δ)
  | message (id : Option Text) (role : Text) (content : List ContentItem) (phase : Option δ)
    (metadata : Option δ)
  | agentMessage (id : Option Text) (author recipient : Text) (content : List δ)
    (metadata : Option δ)
  | reasoning (id : Option Text) (details : δ)
  | localShellCall (id : Option Text) (callId : Option Text) (details : δ)
  | functionCall (id : Option Text) (callId : Text) (details : δ)
  | toolSearchCall (id : Option Text) (callId : Option Text) (details : δ)
  | functionCallOutput (id : Option Text) (callId : Text) (output : FunctionCallOutputPayload δ)
    (metadata : Option δ)
  | customToolCall (id : Option Text) (callId : Text) (details : δ)
  | customToolCallOutput (id : Option Text) (callId : Text) (name : Option Text)
    (output : FunctionCallOutputPayload δ)
      (metadata : Option δ)
  | toolSearchOutput (id : Option Text) (callId : Option Text) (status execution : Text)
    (tools : List δ)
      (metadata : Option δ)
  | webSearchCall (id : Option Text) (details : δ)
  | imageGenerationCall (id : Option Text) (details : δ)
  | compaction (id : Option Text) (details : δ)
  | compactionTrigger
  | contextCompaction (id : Option Text) (details : δ)
  | other
  deriving DecidableEq

variable {δ : Type}

/-- `synthetic_output_id`, with `Uuid::new_v5` in the namespace of these ids. -/
def syntheticOutputId (uuidV5 : Text → Text) (start : Text) (itemId : Option Text) : Option Text :=
  (itemId.filter (· ≠ [])).map fun sourceId => start ++ ['_'] ++ uuidV5 (start ++ [':'] ++ sourceId)

def functionOutputIds (items : List (ResponseItem δ)) : List Text :=
  items.filterMap fun
    | .functionCallOutput _ callId _ _ => some callId
    | _ => none

def toolSearchOutputIds (items : List (ResponseItem δ)) : List Text :=
  items.filterMap fun
    | .toolSearchOutput _ callId _ _ _ _ => callId
    | _ => none

def customToolOutputIds (items : List (ResponseItem δ)) : List Text :=
  items.filterMap fun
    | .customToolCallOutput _ callId _ _ _ => some callId
    | _ => none

section Ensure

variable (uuidV5 : Text → Text)

def abortedFunctionOutput (id : Option Text) (callId : Text) : ResponseItem δ :=
  .functionCallOutput (syntheticOutputId uuidV5 "fco".toList id) callId
    (.fromText "aborted".toList) none

/-- The output that an item of `items` lacks. -/
def missingOutput (items : List (ResponseItem δ)) : ResponseItem δ → Option (ResponseItem δ)
  | .functionCall id callId _ =>
    if callId ∈ functionOutputIds items then none
    else some (abortedFunctionOutput uuidV5 id callId)
  | .toolSearchCall id (some callId) _ =>
    if callId ∈ toolSearchOutputIds items then none
    else some (.toolSearchOutput (syntheticOutputId uuidV5 "tso".toList id) (some callId)
      "completed".toList "client".toList [] none)
  | .customToolCall id callId _ =>
    if callId ∈ customToolOutputIds items then none
    else some (.customToolCallOutput (syntheticOutputId uuidV5 "ctco".toList id) callId none
      (.fromText "aborted".toList) none)
  | .localShellCall id (some callId) _ =>
    if callId ∈ functionOutputIds items then none else some (abortedFunctionOutput uuidV5 id callId)
  | _ => none

def missingOutputsToInsert (items : List (ResponseItem δ)) : List (ℕ × ResponseItem δ) :=
  items.zipIdx.filterMap fun (item, idx) => (missingOutput uuidV5 items item).map (idx, ·)

/-- `ensure_call_outputs_present`. The outputs are inserted from the last to the first. -/
def ensureCallOutputsPresent (items : List (ResponseItem δ)) : List (ResponseItem δ) :=
  (missingOutputsToInsert uuidV5 items).reverse.foldl
    (fun items (idx, outputItem) => items.insertIdx (idx + 1) outputItem) items

end Ensure

def functionCallIds (items : List (ResponseItem δ)) : List Text :=
  items.filterMap fun
    | .functionCall _ callId _ => some callId
    | _ => none

def toolSearchCallIds (items : List (ResponseItem δ)) : List Text :=
  items.filterMap fun
    | .toolSearchCall _ callId _ => callId
    | _ => none

def localShellCallIds (items : List (ResponseItem δ)) : List Text :=
  items.filterMap fun
    | .localShellCall _ callId _ => callId
    | _ => none

def customToolCallIds (items : List (ResponseItem δ)) : List Text :=
  items.filterMap fun
    | .customToolCall _ callId _ => some callId
    | _ => none

/-- The items that `remove_orphan_outputs` retains. -/
def retainsItem (items : List (ResponseItem δ)) : ResponseItem δ → Bool
  | .functionCallOutput _ callId _ _ =>
    callId ∈ functionCallIds items || callId ∈ localShellCallIds items
  | .customToolCallOutput _ callId _ _ _ => callId ∈ customToolCallIds items
  | .toolSearchOutput _ callId _ execution _ _ =>
    if execution = "server".toList then true
    else match callId with
      | some callId => callId ∈ toolSearchCallIds items
      | none => true
  | _ => true

def removeOrphanOutputs (items : List (ResponseItem δ)) : List (ResponseItem δ) :=
  items.filter (retainsItem items)

def removeFirstMatching (items : List (ResponseItem δ)) (predicate : ResponseItem δ → Bool) :
    List (ResponseItem δ) :=
  match items.findIdx? predicate with
  | some pos => items.eraseIdx pos
  | none => items

def isFunctionCall (callId : Text) : ResponseItem δ → Bool
  | .functionCall _ existing _ => existing = callId
  | _ => false

def isFunctionCallOutput (callId : Text) : ResponseItem δ → Bool
  | .functionCallOutput _ existing _ _ => existing = callId
  | _ => false

def removeCorrespondingFor (items : List (ResponseItem δ)) : ResponseItem δ → List (ResponseItem δ)
  | .functionCall _ callId _ | .localShellCall _ (some callId) _ =>
    removeFirstMatching items (isFunctionCallOutput callId)
  | .functionCallOutput _ callId _ _ =>
    match items.findIdx? (isFunctionCall callId) with
    | some pos => items.eraseIdx pos
    | none => removeFirstMatching items fun
      | .localShellCall _ existing _ => existing = some callId
      | _ => false
  | .toolSearchCall _ (some callId) _ => removeFirstMatching items fun
    | .toolSearchOutput _ existing _ _ _ _ => existing = some callId
    | _ => false
  | .toolSearchOutput _ (some callId) _ _ _ _ => removeFirstMatching items fun
    | .toolSearchCall _ existing _ => existing = some callId
    | _ => false
  | .customToolCall _ callId _ => removeFirstMatching items fun
    | .customToolCallOutput _ existing _ _ _ => existing = callId
    | _ => false
  | .customToolCallOutput _ callId _ _ _ => removeFirstMatching items fun
    | .customToolCall _ existing _ => existing = callId
    | _ => false
  | _ => items

/-- `ContextManager::remove_first_item`. -/
def removeFirstItem : List (ResponseItem δ) → List (ResponseItem δ)
  | [] => []
  | removed :: items => removeCorrespondingFor items removed

end OmniDoer.Conversation
