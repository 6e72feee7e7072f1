import OmniDoer.Model.ThreadHistory
import OmniDoer.Library.Table
import OmniDoer.Verification.Conversation.Rollback

/-! # What is shown and what is remembered

The turns that are shown and the history that the model remembers are rebuilt from one rollout by
two replays. A rollback drops turns of any kind from the first, and instruction boundaries from the
second. -/

namespace OmniDoer.Conversation

open Rust List

variable {δ : Type} {rules : Recognizers δ} {hooks : HookPrompts δ}

abbrev ShownMessage (δ : Type) := Option Text × List (UserInput δ)

def shownMessage? : ThreadItem δ → Option (ShownMessage δ)
  | .userMessage _ clientId content => some (clientId, content)
  | _ => none

def shownMessages (items : List (ThreadItem δ)) : List (ShownMessage δ) :=
  items.filterMap shownMessage?

def showsAs (payload : UserMessageEvent δ) : ShownMessage δ :=
  (payload.clientId, ThreadHistoryBuilder.buildUserInputs payload)

def showing? : RolloutItem δ → Option (UserMessageEvent δ)
  | .eventMsg (.userMessage payload) => some payload
  | _ => none

def isUserMessage (rules : Recognizers δ) : ResponseItem δ → Bool
  | .message _ role content _ _ =>
    role = "user".toList && !isContextualUserMessageContent rules content
  | _ => false

/-- The user message that an item of the rollout adds to the history. -/
def adding? (rules : Recognizers δ) : RolloutItem δ → Option (ResponseItem δ)
  | .responseItem item => if isUserMessage rules item then some item else none
  | _ => none

namespace ThreadHistoryBuilder

/-- The id under which an item of the rollout puts an item into a turn. -/
def upsertedId? (builder : ThreadHistoryBuilder δ) : RolloutItem δ → Option Text
  | .eventMsg (.item _ _ itemId _) => some itemId
  | .eventMsg (.guardianAssessment _ item) => item.map (·.1)
  | .eventMsg (.enteredReviewMode _ itemId _) => some (itemId.getD builder.nextItemId.2)
  | .eventMsg (.exitedReviewMode _ itemId _) => some (itemId.getD builder.nextItemId.2)
  | .eventMsg (.itemStarted _ item) | .eventMsg (.itemCompleted _ item) =>
    match item with
    | .plan id _ | .enteredReviewMode id _ | .exitedReviewMode id _ | .contextCompaction id _ |
      .materialized _ id _ =>
      some id
    | .legacy _ => none
  | _ => none

def view (builder : ThreadHistoryBuilder δ) : List (Turn δ) :=
  builder.turns ++ (builder.currentTurn.map (·.toTurn)).toList

/-- The item takes the place of no user message that is shown. -/
def KeepsMessages (builder : ThreadHistoryBuilder δ) (item : RolloutItem δ) : Prop :=
  ∀ id, builder.upsertedId? item = some id → ∀ turn ∈ builder.view, ∀ message ∈ turn.items,
    (shownMessage? message).isSome = true → message.id ≠ id

/-- The item names no turn but the given one as the turn of a review. -/
def staysInTurn (turnId : Text) : RolloutItem δ → Bool
  | .eventMsg (.enteredReviewMode id _ _) | .eventMsg (.exitedReviewMode id _ _) =>
    id.all (· = turnId)
  | .eventMsg (.itemStarted id item) | .eventMsg (.itemCompleted id item) =>
    match item with
    | .enteredReviewMode .. | .exitedReviewMode .. => id = turnId
    | _ => true
  | _ => true

/-- The builder is in the explicit turn `turnId`, which shows `current`; `turns` are shown before.
-/
structure InTurn (turnId : Text) (turns : List (List (ShownMessage δ)))
    (current : List (ShownMessage δ))
    (builder : ThreadHistoryBuilder δ) : Prop where
  finished : builder.turns.map (fun turn => shownMessages turn.items) = turns
  current : ∃ turn, builder.currentTurn = some turn ∧ turn.openedExplicitly = true ∧
    turn.id = turnId ∧
    shownMessages turn.items = current

section Primitives

variable {turnId : Text} {turns : List (List (ShownMessage δ))} {current : List (ShownMessage δ)}
  {builder : ThreadHistoryBuilder δ} {item : ThreadItem δ}

theorem shownMessages_append (items items' : List (ThreadItem δ)) :
    shownMessages (items ++ items') = shownMessages items ++ shownMessages items' :=
      filterMap_append

theorem shownMessages_singleton (item : ThreadItem δ) :
    shownMessages [item] = (shownMessage? item).toList := by
  cases h : shownMessage? item <;> simp [shownMessages, h]

variable {turn : PendingTurn δ}

theorem ensureTurn_of_some (h : builder.currentTurn = some turn) :
    builder.ensureTurn = (builder, turn) := by
  rw [ensureTurn, h]

theorem upsertTurnItem_eq (items : List (ThreadItem δ)) (item : ThreadItem δ) :
    upsertTurnItem items item = Tables.insertRow ThreadItem.id item items :=
  (Tables.insertRow_eq_set ThreadItem.id item items).symm

theorem shownMessages_upsert {items : List (ThreadItem δ)} (hitem : shownMessage? item = none)
    (hfree : ∀ message ∈ items, (shownMessage? message).isSome = true → message.id ≠ item.id) :
    shownMessages (upsertTurnItem items item) = shownMessages items := by
  rw [upsertTurnItem_eq]
  refine Tables.filterMap_insertRow hitem fun message hmessage hid => ?_
  by_contra hsome
  exact hfree message hmessage (Option.isSome_iff_ne_none.2 hsome) hid

variable (h : InTurn turnId turns current builder)

include h in
theorem InTurn.push (item : ThreadItem δ) :
    InTurn turnId turns (current ++ (shownMessage? item).toList)
      (builder.pushItemInCurrentTurn item) := by
  obtain ⟨turn, hturn, hexplicit, hid, hmessages⟩ := h.current
  rw [pushItemInCurrentTurn, ensureTurn_of_some hturn]
  refine ⟨h.finished, { turn with items := turn.items ++ [item] }, rfl, hexplicit, hid, ?_⟩
  rw [shownMessages_append, hmessages, shownMessages_singleton]

/-- The item, which is no message, takes the place of no message of any turn. -/
structure Harmless (builder : ThreadHistoryBuilder δ) (item : ThreadItem δ) : Prop where
  other : shownMessage? item = none
  free : ∀ turn ∈ builder.view, ∀ message ∈ turn.items, (shownMessage? message).isSome = true →
    message.id ≠ item.id

include h in
theorem InTurn.setItems {items : List (ThreadItem δ)} (hturn : builder.currentTurn = some turn)
    (hitems : shownMessages items = shownMessages turn.items) (id : Text) :
    InTurn turnId turns current
    ((builder.setCurrentItems turn items).recordChangedItem id item) := by
  obtain ⟨turn', hturn', hexplicit, hid, hmessages⟩ := h.current
  rw [hturn] at hturn'
  cases hturn'
  exact ⟨h.finished, { turn with items }, rfl, hexplicit, hid, hitems.trans hmessages⟩

theorem mem_view_of_current (h : builder.currentTurn = some turn) : turn.toTurn ∈ builder.view := by
  rw [view, h]
  simp

include h in
theorem InTurn.upsertCurrent (hitem : Harmless builder item) :
    InTurn turnId turns current (builder.upsertItemInCurrentTurn item) := by
  obtain ⟨turn, hturn, -⟩ := h.current
  rw [upsertItemInCurrentTurn, ensureTurn_of_some hturn]
  exact h.setItems hturn
    (shownMessages_upsert hitem.other (hitem.free _ (mem_view_of_current hturn))) _

theorem map_modifyTurn {β : Type} {f : Turn δ → Turn δ} {g : Turn δ → β}
    {list : List (Turn δ)} (id : Text)
    (h : ∀ turn ∈ list, g (f turn) = g turn) : (modifyTurn list id f).map g = list.map g := by
  induction list with
  | nil => rfl
  | cons turn list ih =>
    rw [modifyTurn]
    split
    · rw [map_cons, map_cons, h turn mem_cons_self]
    · rw [map_cons, map_cons, ih fun turn hturn => h turn (mem_cons_of_mem _ hturn)]

section

variable (h : InTurn turnId turns current builder)
include h

theorem InTurn.upsertIn (hitem : Harmless builder item) (id : Text) :
    InTurn turnId turns current (builder.upsertItemInTurnId id item) := by
  obtain ⟨turn, hturn, hexplicit, hid, hmessages⟩ := h.current
  rw [upsertItemInTurnId]
  split
  · rename_i turn' hturn'
    obtain ⟨hcurrent, -⟩ := Option.filter_eq_some_iff.1 hturn'
    exact h.setItems hcurrent
      (shownMessages_upsert hitem.other (hitem.free _ (mem_view_of_current hcurrent))) _
  · split
    · refine ⟨?_, turn, hturn, hexplicit, hid, hmessages⟩
      rw [← h.finished]
      refine map_modifyTurn id fun turn hturn =>
        shownMessages_upsert hitem.other (hitem.free turn ?_)
      exact mem_append_left _ hturn
    · exact h

theorem InTurn.upsert (hitem : Harmless builder item) (id : Text) :
    InTurn turnId turns current (builder.upsertItem id item) := by
  rw [upsertItem]
  split
  · exact h.upsertCurrent hitem
  · exact h.upsertIn hitem id

theorem InTurn.upsertReview (hitem : Harmless builder item) {id : Option Text}
    (hid : id.all (· = turnId) = true) :
    InTurn turnId turns current (builder.upsertReviewModeItem id item) := by
  cases id with
  | none => exact h.upsertCurrent hitem
  | some id =>
    obtain ⟨turn, hturn, -, hturnId, -⟩ := h.current
    obtain rfl : id = turnId := by simpa using hid
    rw [upsertReviewModeItem, if_neg]
    · exact h.upsertIn hitem id
    · simp [hturn, hturnId]

theorem InTurn.nextItemId : InTurn turnId turns current builder.nextItemId.1 :=
  ⟨h.finished, h.current⟩

theorem InTurn.reasoning (text : Text)
    {add : List Text → List Text → ThreadItem δ → ThreadItem δ} {new : Text → ThreadItem δ}
    (hadd : ∀ summary content item, shownMessage? (add summary content item) = none)
    (hnew : ∀ id, shownMessage? (new id) = none) :
    InTurn turnId turns current (builder.handleReasoning text add new) := by
  obtain ⟨turn, hturn, -⟩ := h.current
  rw [handleReasoning]
  split
  · exact h
  · rw [ensureTurn_of_some hturn]
    dsimp only
    split
    · rename_i id summary content hlast
      refine h.setItems hturn ?_ _
      obtain ⟨items, hitems⟩ := getLast?_eq_some_iff.1 hlast
      rw [hitems, dropLast_concat, shownMessages_append, shownMessages_append]
      rw [shownMessages_singleton, hadd]
      rfl
    · have hpush := h.nextItemId.push (new builder.nextItemId.2)
      rw [hnew, Option.toList_none, append_nil] at hpush
      exact hpush

theorem InTurn.changeCurrent (hturn : builder.currentTurn = some turn) {f : TurnMeta δ → TurnMeta δ}
    (hf : ∀ turn, (f turn).id = turn.id) :
    InTurn turnId turns current (builder.changeCurrentTurn turn f) := by
  obtain ⟨turn', hturn', hexplicit, hid, hmessages⟩ := h.current
  rw [hturn] at hturn'
  cases hturn'
  exact ⟨h.finished, { turn with toTurnMeta := f turn.toTurnMeta }, rfl, hexplicit,
    (hf _).trans hid, hmessages⟩

end

end Primitives

def isCompaction : RolloutItem δ → Bool
  | .compacted _ | .eventMsg (.contextCompacted _) => true
  | _ => false

section Item

variable {turnId : Text} {turns : List (List (ShownMessage δ))} {current : List (ShownMessage δ)}
  {builder : ThreadHistoryBuilder δ}

theorem KeepsMessages.harmless {rolloutItem : RolloutItem δ} (h : builder.KeepsMessages rolloutItem)
    (item : ThreadItem δ)
    (hid : builder.upsertedId? rolloutItem = some item.id) (hitem : shownMessage? item = none) :
    Harmless builder item :=
  ⟨hitem, h item.id hid⟩

section

variable (h : InTurn turnId turns current builder)
include h

theorem InTurn.lifecycle {id : Text} {item : TurnItem δ}
    (hkeeps : builder.KeepsMessages (.eventMsg (.itemStarted id item)))
    (hstays : staysInTurn turnId (.eventMsg (.itemStarted id item)) = true) :
    InTurn turnId turns current (builder.handleMaterializedItemLifecycle id item) := by
  cases item with
  | plan itemId text =>
    rw [handleMaterializedItemLifecycle]
    split
    · exact h
    · exact h.upsertIn (hkeeps.harmless (.plan itemId text) rfl rfl) id
  | enteredReviewMode itemId review =>
    exact h.upsertReview (hkeeps.harmless (.enteredReviewMode itemId review) rfl rfl)
      (show Option.all (· = turnId) (some id) = true from hstays)
  | exitedReviewMode itemId review =>
    exact h.upsertReview (hkeeps.harmless (.exitedReviewMode itemId review) rfl rfl)
      (show Option.all (· = turnId) (some id) = true from hstays)
  | contextCompaction itemId summary =>
    exact h.upsertIn (hkeeps.harmless (.contextCompaction itemId summary) rfl rfl) id
  | materialized kind itemId details =>
    cases kind with
    | hookPrompt => exact h.upsertIn (hkeeps.harmless (.hookPrompt itemId details) rfl rfl) id
    | _ => exact h.upsertIn (hkeeps.harmless (.other itemId details) rfl rfl) id
  | legacy details => exact h

theorem InTurn.event {event : EventMsg δ}
    (hwithin : isWithinTurn (.eventMsg event) = true) (hno : isCompaction (.eventMsg event) = false)
    (hstays : staysInTurn turnId (.eventMsg event) = true)
    (hkeeps : builder.KeepsMessages (.eventMsg event)) :
    InTurn turnId turns (current ++ ((showing? (.eventMsg event)).map showsAs).toList)
      (builder.handleEvent event) := by
  cases event with
  | userMessage payload =>
    obtain ⟨turn, hturn, hexplicit, -⟩ := h.current
    have hopen : builder.handleUserMessage payload =
        (builder.nextItemId.1).pushItemInCurrentTurn
          (.userMessage builder.nextItemId.2 payload.clientId
          (buildUserInputs payload)) := by
      rw [handleUserMessage, hturn]
      simp [hexplicit]
    rw [handleEvent, hopen]
    exact h.nextItemId.push
      (.userMessage builder.nextItemId.2 payload.clientId (buildUserInputs payload))
  | threadRolledBack | turnAborted | turnStarted | turnComplete => cases hwithin
  | contextCompacted message => cases hno
  | agentMessage message details =>
    rw [handleEvent, handleAgentMessage]
    split
    · exact (append_nil current).symm ▸ h
    · exact h.nextItemId.push (.agentMessage builder.nextItemId.2 message details)
  | agentReasoning text | agentReasoningRawContent text =>
    rw [handleEvent]
    exact (append_nil current).symm ▸ h.reasoning text (fun _ _ _ => rfl) fun _ => rfl
  | item event id itemId details =>
    have hitem := hkeeps.harmless (.other itemId details) rfl rfl
    refine (append_nil current).symm ▸ ?_
    rw [handleEvent, handleItemEvent]
    split
    · exact h.upsertCurrent hitem
    · exact h.upsertIn hitem id
    · exact h.upsert hitem id
  | guardianAssessment id item =>
    refine (append_nil current).symm ▸ ?_
    cases item with
    | none => exact h
    | some item => exact h.upsert (hkeeps.harmless (.other item.1 item.2) rfl rfl) id
  | enteredReviewMode id itemId hint =>
    refine (append_nil current).symm ▸ ?_
    have hitem := hkeeps.harmless (.enteredReviewMode (itemId.getD builder.nextItemId.2)
      (hint.getD "Review requested.".toList)) rfl rfl
    cases itemId with
    | none => exact h.nextItemId.upsertReview ⟨hitem.other, hitem.free⟩ hstays
    | some itemId => exact h.upsertReview hitem hstays
  | exitedReviewMode id itemId review =>
    refine (append_nil current).symm ▸ ?_
    have hitem :=
      hkeeps.harmless (.exitedReviewMode (itemId.getD builder.nextItemId.2) review) rfl rfl
    cases itemId with
    | none => exact h.nextItemId.upsertReview ⟨hitem.other, hitem.free⟩ hstays
    | some itemId => exact h.upsertReview hitem hstays
  | itemStarted | itemCompleted =>
    refine (append_nil current).symm ▸ ?_
    exact h.lifecycle hkeeps hstays
  | error affectsTurnStatus info =>
    refine (append_nil current).symm ▸ ?_
    obtain ⟨turn, hturn, -⟩ := h.current
    rw [handleEvent, handleError]
    split
    · exact h
    · rw [hturn]
      exact h.changeCurrent hturn fun _ => rfl
  | other => exact (append_nil current).symm ▸ h

theorem InTurn.item {item : RolloutItem δ} (hwithin : isWithinTurn item = true)
    (hno : isCompaction item = false) (hstays : staysInTurn turnId item = true)
    (hkeeps : builder.KeepsMessages item) :
    InTurn turnId turns (current ++ ((showing? item).map showsAs).toList)
      (builder.handleRolloutItem hooks item) := by
  have hnumber : InTurn turnId turns current { builder with
      nextRolloutIndex := builder.nextRolloutIndex + 1, currentRolloutIndex :=
        builder.nextRolloutIndex } :=
    ⟨h.finished, h.current⟩
  cases item with
  | eventMsg event => exact hnumber.event hwithin hno hstays hkeeps
  | compacted payload => cases hno
  | responseItem item =>
    refine (append_nil current).symm ▸ ?_
    cases item with
    | message id role content phase metadata =>
      rw [handleRolloutItem]
      dsimp only [handleResponseItem]
      split
      · exact hnumber
      · split
        · rename_i details hparse
          have hpush :=
            hnumber.push (.hookPrompt (id.getD (hooks.newItemId builder.nextRolloutIndex)) details)
          exact (append_nil current) ▸ hpush
        · exact hnumber
    | _ => exact hnumber
  | _ => exact (append_nil current).symm ▸ hnumber

end

/-- Every item takes the place of no message that is shown when it is handled. -/
def AllKeepMessages (hooks : HookPrompts δ) (builder : ThreadHistoryBuilder δ) :
    List (RolloutItem δ) → Prop
  | [] => True
  | item :: items =>
    builder.KeepsMessages item ∧ AllKeepMessages hooks (builder.handleRolloutItem hooks item) items

theorem InTurn.items (h : InTurn turnId turns current builder) {items : List (RolloutItem δ)}
    (hwithin : ∀ item ∈ items, isWithinTurn item = true)
    (hno : ∀ item ∈ items, isCompaction item = false)
    (hstays : ∀ item ∈ items, staysInTurn turnId item = true)
    (hkeeps : AllKeepMessages hooks builder items) :
    InTurn turnId turns (current ++ (items.filterMap showing?).map showsAs)
      (items.foldl (handleRolloutItem hooks) builder) := by
  induction items generalizing builder current with
  | nil => simpa using h
  | cons item items ih =>
    have hstep : InTurn turnId turns _ (builder.handleRolloutItem hooks item) :=
      h.item (hwithin item mem_cons_self) (hno item mem_cons_self)
        (hstays item mem_cons_self) hkeeps.1
    have hrest := ih hstep (fun item hitem => hwithin item (mem_cons_of_mem _ hitem))
      (fun item hitem => hno item (mem_cons_of_mem _ hitem))
      (fun item hitem => hstays item (mem_cons_of_mem _ hitem)) hkeeps.2
    cases hshown : showing? item with
    | none | some => simpa [hshown] using hrest

theorem allKeepMessages_append {items items' : List (RolloutItem δ)} :
    AllKeepMessages hooks builder (items ++ items') ↔
      AllKeepMessages hooks builder items ∧
        AllKeepMessages hooks (items.foldl (handleRolloutItem hooks) builder) items' := by
  induction items generalizing builder with
  | nil => simp [AllKeepMessages]
  | cons item items ih => simp [AllKeepMessages, ih, and_assoc]

theorem InTurn.complete (h : InTurn turnId turns current builder) {payload : TurnCompleteEvent δ}
    (hid : payload.turnId = turnId) :
    let after := builder.handleRolloutItem hooks (.eventMsg (.turnComplete payload))
    after.currentTurn = none ∧
      after.turns.map (fun turn => shownMessages turn.items) = turns ++ [current] := by
  obtain ⟨turn, hturn, hexplicit, hturnId, hmessages⟩ := h.current
  have hfilter : (some turn).filter (fun turn => turn.id = payload.turnId) = some turn := by
    simp [hid, hturnId]
  simp only [handleRolloutItem, handleEvent, handleTurnComplete, hturn, hfilter, finishCurrentTurn,
    changeCurrentTurn, recordChangedTurn, hexplicit, Bool.not_true, Bool.and_false, Bool.false_and,
    Bool.false_eq_true, if_false]
  refine ⟨trivial, ?_⟩
  rw [map_append, h.finished, map_singleton, hmessages]

end Item

end ThreadHistoryBuilder

end OmniDoer.Conversation
