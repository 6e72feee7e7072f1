import OmniDoer.Verification.Conversation.Shown
import Mathlib.Data.List.ReduceOption

/-! # Rollbacks in the two replays

A thread is a list of turns and rollbacks. The turns that are shown and the history that is
remembered hold the same user messages as long as every rollback drops as many of them from both. -/

namespace OmniDoer.Conversation

open Rust List

variable {δ : Type} {rules : Recognizers δ} {hooks : HookPrompts δ}

/-- A user message, as it is shown and as it is remembered. -/
abbrev Message (δ : Type) := UserMessageEvent δ × ResponseItem δ

/-- A turn with one message of the user or none. -/
structure ThreadTurn (rules : Recognizers δ) extends CompleteTurn δ where
  notCompacted : ∀ item ∈ body, ThreadHistoryBuilder.isCompaction item = false
  staysInTurn : ∀ item ∈ body, ThreadHistoryBuilder.staysInTurn started.turnId item = true
  user : Option (Message δ)
  shown : body.filterMap showing? = (user.map Prod.fst).toList
  added : body.filterMap (adding? rules) = (user.map Prod.snd).toList

inductive ThreadStep (rules : Recognizers δ) where
  | turn (completed : ThreadTurn rules)
  | rollback (numTurns : ℕ)

def ThreadStep.items : ThreadStep rules → List (RolloutItem δ)
  | .turn completed => completed.toCompleteTurn.items
  | .rollback numTurns => [.eventMsg (.threadRolledBack numTurns)]

def ThreadStep.user : ThreadStep rules → Option (Message δ)
  | .turn completed => completed.user
  | .rollback _ => none

def rollout (steps : List (ThreadStep rules)) : List (RolloutItem δ) :=
  steps.flatMap ThreadStep.items

/-- The last `n` elements. -/
def newest {α : Type} (n : ℕ) (list : List α) : List α := list.drop (list.length - n)

/-- The list without its last `n` elements. -/
def older {α : Type} (n : ℕ) (list : List α) : List α := list.take (list.length - n)

theorem older_append_newest {α : Type} (n : ℕ) (list : List α) :
    older n list ++ newest n list = list :=
  take_append_drop _ _

/-- The turns that are shown, each with its message: a rollback drops the newest turns. -/
def shownTurn (shown : List (Option (Message δ))) : ThreadStep rules → List (Option (Message δ))
  | .turn completed => shown ++ [completed.user]
  | .rollback numTurns => older numTurns shown

def shownTurns (steps : List (ThreadStep rules)) : List (Option (Message δ)) :=
  steps.foldl shownTurn []

/-- The instructions that are remembered: a rollback drops the newest of them, whatever turns they
are of. -/
def rememberedInstruction (instructions : List (ResponseItem δ)) :
    ThreadStep rules → List (ResponseItem δ)
  | .turn completed =>
    instructions ++ (recorded rules completed.body).filter (isUserTurnBoundary rules)
  | .rollback numTurns => older numTurns instructions

def rememberedInstructions (steps : List (ThreadStep rules)) : List (ResponseItem δ) :=
  steps.foldl rememberedInstruction []

/-- The newest `n` turns and the newest `n` instructions hold equally many user messages. -/
def Balanced (before : List (ThreadStep rules)) (n : ℕ) : Prop :=
  (newest n (shownTurns before)).reduceOption.length =
    ((newest n (rememberedInstructions before)).filter (isUserMessage rules)).length

/-- The turns that are shown and the history hold the same user messages of the thread, in its
order. -/
def Agree (hooks : HookPrompts δ) (steps : List (ThreadStep rules)) : Prop :=
  ∃ messages : List (Message δ), messages.Sublist (steps.filterMap ThreadStep.user) ∧
    (buildTurnsFromRolloutItems hooks (rollout steps)).flatMap
      (fun turn => shownMessages turn.items) =
      messages.map (fun message => showsAs message.1) ∧
    (reconstructHistoryFromRollout rules (rollout steps)).history.filter (isUserMessage rules) =
      messages.map Prod.snd

section Shown

open ThreadHistoryBuilder

variable {builder : ThreadHistoryBuilder δ} {shown : List (Option (Message δ))}

/-- Between turns the builder shows the messages of `shown`. -/
structure Between (shown : List (Option (Message δ)))
    (builder : ThreadHistoryBuilder δ) : Prop where
  closed : builder.currentTurn = none
  messages : builder.turns.map (fun turn => shownMessages turn.items) =
    shown.map fun user => (user.map fun message => showsAs message.1).toList

theorem Between.turn (h : Between shown builder) (completed : ThreadTurn rules)
    (hkeeps : AllKeepMessages hooks builder completed.toCompleteTurn.items) :
    Between (shown ++ [completed.user])
      (completed.toCompleteTurn.items.foldl (handleRolloutItem hooks) builder) := by
  rw [CompleteTurn.items] at hkeeps ⊢
  have hstarted : InTurn completed.started.turnId
      (builder.turns.map fun turn => shownMessages turn.items) []
      (builder.handleRolloutItem hooks (.eventMsg (.turnStarted completed.started))) := by
    simp only [handleRolloutItem, handleEvent, handleTurnStarted, finishCurrentTurn, h.closed]
    exact ⟨rfl, _, rfl, rfl, rfl, rfl⟩
  have hbody := hstarted.items completed.within completed.notCompacted completed.staysInTurn
    (allKeepMessages_append.1 hkeeps.2).1
  obtain ⟨hclosed, hmessages⟩ := @InTurn.complete _ hooks _ _ _ _ hbody _ completed.sameId
  rw [foldl_cons, foldl_append, foldl_cons, foldl_nil]
  refine ⟨hclosed, ?_⟩
  rw [hmessages, h.messages, map_append, completed.shown, nil_append]
  cases completed.user <;> rfl

theorem Between.rollback (h : Between shown builder) (numTurns : ℕ) :
    Between (older numTurns shown)
      (builder.handleRolloutItem hooks (.eventMsg (.threadRolledBack numTurns))) := by
  have hlength : builder.turns.length = shown.length := by
    simpa using congrArg length h.messages
  simp only [handleRolloutItem, handleEvent, handleThreadRollback, finishCurrentTurn, h.closed]
  refine ⟨rfl, ?_⟩
  rw [older, map_take, map_take, h.messages, hlength]

theorem Between.run (steps : List (ThreadStep rules)) (h : Between shown builder)
    (hkeeps : AllKeepMessages hooks builder (rollout steps)) :
    Between (steps.foldl shownTurn shown)
      ((rollout steps).foldl (handleRolloutItem hooks) builder) := by
  induction steps generalizing shown builder with
  | nil => exact h
  | cons step steps ih =>
    rw [rollout, flatMap_cons] at hkeeps ⊢
    obtain ⟨hfirst, hrest⟩ := allKeepMessages_append.1 hkeeps
    rw [foldl_append]
    refine ih ?_ hrest
    cases step with
    | turn completed => exact h.turn completed hfirst
    | rollback numTurns => exact @Between.rollback _ hooks _ _ h numTurns

theorem shown_messages {steps : List (ThreadStep rules)}
    (hkeeps : AllKeepMessages hooks {} (rollout steps)) :
    (buildTurnsFromRolloutItems hooks (rollout steps)).flatMap
      (fun turn => shownMessages turn.items) =
      (shownTurns steps).reduceOption.map fun message => showsAs message.1 := by
  have hempty : Between [] ({} : ThreadHistoryBuilder δ) := ⟨rfl, rfl⟩
  have hrun := hempty.run steps hkeeps
  rw [buildTurnsFromRolloutItems, finish, finishCurrentTurn, hrun.closed, flatMap_def,
    hrun.messages, ← shownTurns]
  induction shownTurns steps with
  | nil => rfl
  | cons user users ih => cases user <;> simp_all

end Shown

section Remembered

variable {items : List (RolloutItem δ)} {scan : Scan δ} {item : RolloutItem δ}

/-- The scan has met no compaction. -/
structure Uncompacted (items : List (RolloutItem δ)) (scan : Scan δ) : Prop where
  base : scan.baseReplacementHistory = none
  segment : scan.segment.baseReplacementHistory = none
  suffix : scan.rolloutSuffix = items

theorem finalize_base {segment : ActiveReplaySegment δ} (hbase : scan.baseReplacementHistory = none)
    (hsegment : segment.baseReplacementHistory = none) :
    (finalizeActiveSegment scan segment).baseReplacementHistory = none := by
  rw [finalizeActiveSegment]
  split
  · exact hbase
  · simp [hbase, hsegment]

theorem Uncompacted.run {older : List (RolloutItem δ)} (h : Uncompacted items scan)
    (holder : ∀ item ∈ older, isCompacted item = false) (newer : List (RolloutItem δ)) :
    Uncompacted items (scanItems rules scan newer older) := by
  induction older generalizing scan newer with
  | nil => exact h
  | cons item older ih =>
    have hstep : Uncompacted items (scanItem rules scan item newer) := by
      have hitem := holder item mem_cons_self
      rcases @scanItem_cases _ rules scan item newer with
        ⟨compacted, rfl⟩ | ⟨numTurns, rfl⟩ | ⟨-, hmove⟩
      · cases hitem
      · exact ⟨h.base, h.segment, h.suffix⟩
      · have hsuffix := hmove.rolloutSuffix.trans h.suffix
        cases hmove with
        | segment active hscan hbase =>
          rw [hscan]
          exact ⟨h.base, hbase.trans h.segment, h.suffix⟩
        | finalize segment hactive hscan =>
          have hsegment := h.segment
          rw [Scan.segment, hactive, Option.getD_some] at hsegment
          rw [hscan] at hsuffix ⊢
          refine ⟨finalize_base h.base hsegment, ?_, hsuffix⟩
          rw [Scan.segment, finalize_activeSegment]
          rfl
    rw [scanItems]
    split
    · exact hstep
    · exact ih hstep (fun item hitem => holder item (mem_cons_of_mem _ hitem)) _

theorem reconstruct_uncompacted (hitems : ∀ item ∈ items, isCompacted item = false) :
    (reconstructHistoryFromRollout rules items).history = remembered rules items := by
  have hstart : Uncompacted items { rolloutSuffix := items } := ⟨rfl, rfl, rfl⟩
  have hrun : Uncompacted items (scanItems rules { rolloutSuffix := items } [] items.reverse) :=
    hstart.run (fun item hitem => hitems item (mem_reverse.1 hitem)) []
  have hfinish : (scanItems rules { rolloutSuffix := items }
      [] items.reverse).finish.baseReplacementHistory = none ∧
      (scanItems rules { rolloutSuffix := items }
        [] items.reverse).finish.rolloutSuffix = items := by
    rw [Scan.finish]
    split
    · rename_i segment hactive
      have hsegment := hrun.segment
      rw [Scan.segment, hactive, Option.getD_some] at hsegment
      exact ⟨finalize_base hrun.base hsegment, (finalize_rolloutSuffix _ _).trans hrun.suffix⟩
    · exact ⟨hrun.base, hrun.suffix⟩
  simp only [reconstructHistoryFromRollout, hfinish, Option.getD_none, remembered]

theorem isCompacted_of_not_isCompaction (h : ThreadHistoryBuilder.isCompaction item = false) :
    isCompacted item = false := by
  cases item with
  | compacted compacted => cases h
  | _ => rfl

theorem rollout_uncompacted (steps : List (ThreadStep rules)) :
    ∀ item ∈ rollout steps, isCompacted item = false := by
  intro item hitem
  obtain ⟨step, -, hitem⟩ := mem_flatMap.1 hitem
  cases step with
  | rollback numTurns =>
    cases mem_singleton.1 hitem
    rfl
  | turn completed =>
    simp only [ThreadStep.items, CompleteTurn.items, mem_cons, mem_append,
      not_mem_nil, or_false] at hitem
    rcases hitem with rfl | hitem | rfl
    · rfl
    · exact isCompacted_of_not_isCompaction (completed.notCompacted item hitem)
    · rfl

theorem isUserTurnBoundary_of_isUserMessage {item : ResponseItem δ}
    (h : isUserMessage rules item = true) :
    isUserTurnBoundary rules item = true := by
  cases item with
  | message id role content phase metadata =>
    rw [isUserTurnBoundary, Bool.or_eq_true]
    exact .inl h
  | _ => cases h

theorem filter_isUserMessage (items : List (ResponseItem δ)) :
    (items.filter (isUserTurnBoundary rules)).filter (isUserMessage rules) =
      items.filter (isUserMessage rules) := by
  rw [filter_filter]
  refine filter_congr fun item _ => ?_
  cases h : isUserMessage rules item with
  | false => rfl
  | true => rw [isUserTurnBoundary_of_isUserMessage h]; rfl

theorem filter_recorded (items : List (RolloutItem δ)) :
    (recorded rules items).filter (isUserMessage rules) = items.filterMap (adding? rules) := by
  rw [recorded, filter_filterMap]
  refine filterMap_congr fun item _ => ?_
  cases item with
  | responseItem item =>
    cases item with
    | message id role content phase metadata =>
      by_cases hrole : role = "user".toList
      · have happ : isApiMessage
            (.message id role content phase metadata : ResponseItem δ) = true := by
          simp only [isApiMessage, hrole]
          decide
        simp only [recordedItem, happ, if_true, processItem, adding?, Option.filter_some]
      · have hno : isUserMessage rules (.message id role content phase metadata) = false := by
          simp only [isUserMessage, hrole, decide_false, Bool.false_and]
        simp only [recordedItem, adding?, hno]
        split <;> simp [processItem, hno]
    | _ => simp [recordedItem, adding?, isUserMessage, isApiMessage, processItem]
  | _ => rfl

theorem replay_step (step : ThreadStep rules) (replay : Replay δ) :
    (replayItems rules replay step.items).history.filter (isUserTurnBoundary rules) =
      rememberedInstruction (replay.history.filter (isUserTurnBoundary rules)) step := by
  cases step with
  | rollback numTurns => exact filter_dropLastNUserTurns replay.history numTurns
  | turn completed =>
    have hnone : newestReplacement completed.body = none := by
      refine findSome?_eq_none_iff.2 fun item hitem => ?_
      have hcompacted :=
        isCompacted_of_not_isCompaction (completed.notCompacted item (mem_reverse.1 hitem))
      cases item with
      | compacted compacted => cases hcompacted
      | _ => rfl
    have hturn : (replayItems rules replay completed.toCompleteTurn.items).history =
        (replayItems rules replay completed.body).history := by
      rw [CompleteTurn.items, replayItems, foldl_cons, foldl_append]
      rfl
    rw [ThreadStep.items, hturn, replay_recorded completed.within hnone, filter_append]
    rfl

theorem remembered_instructions (steps : List (ThreadStep rules)) :
    (remembered rules (rollout steps)).filter (isUserTurnBoundary rules) =
      rememberedInstructions steps := by
  have hrun (replay : Replay δ) :
      (replayItems rules replay (rollout steps)).history.filter (isUserTurnBoundary rules) =
      steps.foldl rememberedInstruction (replay.history.filter (isUserTurnBoundary rules)) := by
    induction steps generalizing replay with
    | nil => rfl
    | cons step steps ih =>
      rw [rollout, flatMap_cons, replayItems_append, ← rollout, ih, replay_step, foldl_cons]
  exact hrun _

theorem remembered_messages (steps : List (ThreadStep rules)) :
    (reconstructHistoryFromRollout rules (rollout steps)).history.filter (isUserMessage rules) =
      (rememberedInstructions steps).filter (isUserMessage rules) := by
  rw [reconstruct_uncompacted (rollout_uncompacted steps), ← filter_isUserMessage,
    remembered_instructions]

end Remembered

section Agreement

variable {steps : List (ThreadStep rules)}

theorem shownTurns_snoc (steps : List (ThreadStep rules)) (step : ThreadStep rules) :
    shownTurns (steps ++ [step]) = shownTurn (shownTurns steps) step := foldl_append

theorem rememberedInstructions_snoc (steps : List (ThreadStep rules)) (step : ThreadStep rules) :
    rememberedInstructions (steps ++ [step]) =
      rememberedInstruction (rememberedInstructions steps) step :=
  foldl_append

/-- The messages of the turns that are shown are those of the instructions that are remembered. -/
def Same (steps : List (ThreadStep rules)) : Prop :=
  (shownTurns steps).reduceOption.map Prod.snd =
    (rememberedInstructions steps).filter (isUserMessage rules)

theorem Same.turn (h : Same steps) (completed : ThreadTurn rules) :
    Same (steps ++ [.turn completed]) := by
  rw [Same, shownTurns_snoc, rememberedInstructions_snoc, shownTurn, rememberedInstruction,
    reduceOption_append, map_append, filter_append, h, filter_isUserMessage, filter_recorded,
    completed.added]
  cases completed.user <;> rfl

theorem Same.append (h : Same steps) (n : ℕ) :
    (older n (shownTurns steps)).reduceOption.map Prod.snd ++
      (newest n (shownTurns steps)).reduceOption.map Prod.snd =
      (older n (rememberedInstructions steps)).filter (isUserMessage rules) ++
        (newest n (rememberedInstructions steps)).filter (isUserMessage rules) := by
  rw [← map_append, ← reduceOption_append, ← filter_append, older_append_newest,
    older_append_newest]
  exact h

theorem Same.rollback (h : Same steps) {n : ℕ} (hbalanced : Balanced steps n) :
    Same (steps ++ [.rollback n]) := by
  rw [Same, shownTurns_snoc, rememberedInstructions_snoc]
  exact (append_inj' (h.append n) ((length_map _).trans hbalanced)).1

theorem same_of_balanced (h : ∀ before n, before ++ [.rollback n] <+: steps → Balanced before n) :
    Same steps := by
  induction steps using reverseRecOn with
  | nil => rfl
  | append_singleton steps step ih =>
    have hsame : Same steps :=
      ih fun before n hbefore => h before n (hbefore.trans (prefix_append _ _))
    cases step with
    | turn completed => exact hsame.turn completed
    | rollback n => exact hsame.rollback (h steps n (prefix_refl _))

theorem sublist_shownTurns (steps : List (ThreadStep rules)) :
    (shownTurns steps).reduceOption.Sublist (steps.filterMap ThreadStep.user) := by
  induction steps using reverseRecOn with
  | nil => exact .slnil
  | append_singleton steps step ih =>
    rw [shownTurns_snoc, filterMap_append]
    cases step with
    | turn completed =>
      rw [shownTurn, reduceOption_append]
      refine ih.append ?_
      cases h : completed.user <;> simp [ThreadStep.user, h]
    | rollback n =>
      have htake : (older n (shownTurns steps)).reduceOption.Sublist
          (shownTurns steps).reduceOption :=
        (take_sublist _ _).filterMap _
      exact (htake.trans ih).trans (sublist_append_left _ _)

theorem balanced_of_agree {n : ℕ} (h : Same steps)
    (hkeeps : ThreadHistoryBuilder.AllKeepMessages hooks {} (rollout (steps ++ [.rollback n])))
    (hagree : Agree hooks (steps ++ [.rollback n])) : Balanced steps n := by
  obtain ⟨messages, -, hshown, hremembered⟩ := hagree
  rw [shown_messages hkeeps, shownTurns_snoc] at hshown
  rw [remembered_messages, rememberedInstructions_snoc] at hremembered
  have hshown := congrArg length hshown
  have hremembered := congrArg length hremembered
  have hall := congrArg length (h.append n)
  simp only [length_append, length_map, shownTurn, rememberedInstruction] at hshown hremembered hall
  rw [Balanced]
  omega

/-- The turns that are shown and the history hold the same user messages after every step of a
thread exactly if every rollback drops as many of them from the newest turns as from the newest
instructions. -/
theorem views_agree_iff (rules : Recognizers δ) (hooks : HookPrompts δ)
    (steps : List (ThreadStep rules))
    (hkeeps : ThreadHistoryBuilder.AllKeepMessages hooks {} (rollout steps)) :
    (∀ before, before <+: steps → Agree hooks before) ↔
      ∀ before n, before ++ [.rollback n] <+: steps → Balanced before n := by
  have hbefore {before : List (ThreadStep rules)} (h : before <+: steps) :
      ThreadHistoryBuilder.AllKeepMessages hooks {} (rollout before) := by
    obtain ⟨rest, rfl⟩ := h
    rw [rollout, flatMap_append] at hkeeps
    exact (ThreadHistoryBuilder.allKeepMessages_append.1 hkeeps).1
  constructor
  · intro hagree before n hprefix
    have hsame : Same before := by
      have hstart : before <+: steps := (prefix_append _ _).trans hprefix
      clear hprefix
      induction before using reverseRecOn with
      | nil => rfl
      | append_singleton before step ih =>
        have hsame := ih ((prefix_append _ _).trans hstart)
        cases step with
        | turn completed => exact hsame.turn completed
        | rollback n =>
          exact hsame.rollback (balanced_of_agree hsame (hbefore hstart) (hagree _ hstart))
    exact balanced_of_agree hsame (hbefore hprefix) (hagree _ hprefix)
  · intro hbalanced before hprefix
    have hsame := same_of_balanced fun before' n h => hbalanced before' n (h.trans hprefix)
    exact ⟨_, sublist_shownTurns before, shown_messages (hbefore hprefix),
      (remembered_messages before).trans hsame.symm⟩

end Agreement

def noHooks : HookPrompts Unit := ⟨fun _ => none, fun _ => []⟩

def question : List (RolloutItem Unit) :=
  [.eventMsg (.userMessage { message := "question".toList }),
    .responseItem (plainMessage "user" "question")]

def askedTurn (id : String) : ThreadTurn plainTexts where
  toCompleteTurn := plainTurn id question (by decide)
  notCompacted := show ∀ item ∈ question, _ by decide
  staysInTurn := by
    intro item hitem
    rcases List.mem_pair.1 hitem with rfl | rfl <;> rfl
  user := some ({ message := "question".toList }, plainMessage "user" "question")
  shown := rfl
  added := show question.filterMap (adding? plainTexts) = _ by decide

def emptyTurn (id : String) : ThreadTurn plainTexts where
  toCompleteTurn := plainTurn id [] (by decide)
  notCompacted := nofun
  staysInTurn := nofun
  user := none
  shown := rfl
  added := rfl

/-- The second of two questions is rolled back. -/
theorem views_agree_iff_asked :
    Agree noHooks [.turn (askedTurn "1"), .turn (askedTurn "2"), .rollback 1] := by
  refine (views_agree_iff plainTexts noHooks _ ?_).2 ?_ _ (prefix_refl _)
  · refine ⟨?_, ?_, ?_, ?_, ?_, ?_, ?_, ?_, ?_, trivial⟩ <;> exact nofun
  · rintro before n ⟨rest, h⟩
    rcases before with _ | ⟨first, _ | ⟨second, _ | ⟨third, before⟩⟩⟩
    · cases h
    · cases h
    · cases h
      rfl
    · simp at h

/-- A turn without a question is rolled back: the question before it is shown, but not remembered.
-/
theorem empty_turn_rolled_back :
    let steps : List (ThreadStep plainTexts) :=
      [.turn (askedTurn "1"), .turn (emptyTurn "2"), .rollback 1]
    (buildTurnsFromRolloutItems noHooks (rollout steps)).flatMap
      (fun turn => shownMessages turn.items) =
        [(none, [.text "question".toList []])] ∧
      (reconstructHistoryFromRollout plainTexts (rollout steps)).history = [] ∧
        ¬ Agree noHooks steps := by
  intro steps
  have hshown : (buildTurnsFromRolloutItems noHooks (rollout steps)).flatMap
      (fun turn => shownMessages turn.items) =
      [(none, [.text "question".toList []])] := by
    decide +kernel
  have hhistory : (reconstructHistoryFromRollout plainTexts (rollout steps)).history = [] := by
    decide +kernel
  refine ⟨hshown, hhistory, ?_⟩
  rintro ⟨messages, -, hmessages, hremembered⟩
  rw [hhistory] at hremembered
  rw [hshown, map_eq_nil_iff.1 hremembered.symm] at hmessages
  cases hmessages

end OmniDoer.Conversation
