import OmniDoer.Verification.Conversation.Reconstruction

/-! # Rolling back a turn

What the reconstruction gives after the last turn was rolled back, against what it gave before the
turn. -/

namespace OmniDoer.Conversation

open Rust List

variable {δ : Type} {rules : Recognizers δ}

/-- Neither the start nor the end of a turn, nor a rollback. -/
def isWithinTurn : RolloutItem δ → Bool
  | .eventMsg (.turnStarted _) | .eventMsg (.turnComplete _) | .eventMsg (.turnAborted _) => false
  | item => isReplayable item

/-- A complete turn. -/
structure CompleteTurn (δ : Type) where
  started : TurnStartedEvent
  body : List (RolloutItem δ)
  complete : TurnCompleteEvent δ
  within : ∀ item ∈ body, isWithinTurn item = true
  sameId : complete.turnId = started.turnId

def CompleteTurn.items (turn : CompleteTurn δ) : List (RolloutItem δ) :=
  .eventMsg (.turnStarted turn.started) :: (turn.body ++ [.eventMsg (.turnComplete turn.complete)])

theorem CompleteTurn.replayable (turn : CompleteTurn δ) :
    ∀ item ∈ turn.items, isReplayable item = true := by
  intro item hitem
  rw [items, mem_cons, mem_append, mem_singleton] at hitem
  rcases hitem with rfl | hitem | rfl
  · rfl
  · have h := turn.within item hitem
    cases item with
    | eventMsg event => cases event <;> first | exact h | rfl
    | _ => exact h
  · rfl

/-- Two scans agree but for the suffix that is to be replayed. -/
def SameScan (scan scan' : Scan δ) : Prop :=
  scan' = { scan with rolloutSuffix := scan'.rolloutSuffix }

section Same

variable {scan scan' : Scan δ}

section

variable (h : SameScan scan scan')
include h

theorem SameScan.finalize (segment : ActiveReplaySegment δ) :
    SameScan (finalizeActiveSegment { scan with activeSegment := none } segment)
      (finalizeActiveSegment { scan' with activeSegment := none } segment) := by
  rw [h]
  simp only [finalizeActiveSegment]
  split <;> rfl

theorem SameScan.run (older newer newer' : List (RolloutItem δ)) :
    SameScan (scanItems rules scan newer older) (scanItems rules scan' newer' older) := by
  induction older generalizing scan scan' newer newer' with
  | nil => exact h
  | cons item older ih =>
    have hstep : SameScan (scanItem rules scan item newer) (scanItem rules scan' item newer') := by
      have hactive : scan'.activeSegment = scan.activeSegment := by rw [h]
      cases item with
      | eventMsg event =>
        cases event with
        | turnStarted event =>
          simp only [scanItem, hactive]
          split
          · split
            · exact h.finalize _
            · exact h
          · exact h
        | turnAborted event =>
          simp only [scanItem, hactive]
          split
          · rw [h]; rfl
          · rw [h]; rfl
          · exact h
        | _ => rw [h]; rfl
      | _ => rw [h]; rfl
    have hcomplete : (scanItem rules scan' item newer').isComplete =
        (scanItem rules scan item newer).isComplete := by
      rw [hstep]
      rfl
    rw [scanItems, scanItems, hcomplete]
    split
    · exact hstep
    · exact ih hstep _ _

theorem SameScan.finish : SameScan scan.finish scan'.finish := by
  have hactive : scan'.activeSegment = scan.activeSegment := by rw [h]
  rw [Scan.finish, Scan.finish, hactive]
  split
  · exact h.finalize _
  · exact h

end

end Same

def isUserItem (rules : Recognizers δ) : RolloutItem δ → Bool
  | .responseItem item => isUserTurnBoundary rules item
  | .eventMsg (.userMessage _) | .interAgentCommunication .. => true
  | _ => false

/-- The scan is within a turn that a rollback drops: it has gathered `segment` from `scanned` and
nothing else, and the suffix to replay begins after the newest compaction, or is still `rest`. -/
structure RollingBack (rules : Recognizers δ) (id : Text) (tail rest scanned : List (RolloutItem δ))
    (scan : Scan δ)
    (segment : ActiveReplaySegment δ) : Prop where
  state : scan =
    { rolloutSuffix := scan.rolloutSuffix, pendingRollbackTurns := 1,
      activeSegment := some segment }
  turnId : segment.turnId = some id
  counts : segment.countsAsUserTurn = scanned.any (isUserItem rules)
  base : segment.baseReplacementHistory = newestReplacement scanned
  suffix : (newestReplacement scanned = none ∧ scan.rolloutSuffix = rest) ∨
    ∃ older compacted newer, scanned = older ++ .compacted compacted :: newer ∧
      compacted.replacementHistory.isSome = true ∧ newestReplacement newer = none ∧
        scan.rolloutSuffix = newer ++ tail

section Turn

variable {id : Text} {tail rest scanned : List (RolloutItem δ)} {scan : Scan δ}
  {segment segment' : ActiveReplaySegment δ}
  {item : RolloutItem δ}

theorem RollingBack.keep (h : RollingBack rules id tail rest scanned scan segment)
    (hitem : replacement? item = none)
    {scan' : Scan δ} (hstate : scan' = { scan with activeSegment := some segment' })
    (hturn : segment'.turnId = segment.turnId)
    (hcounts : segment'.countsAsUserTurn = (isUserItem rules item || segment.countsAsUserTurn))
    (hbase : segment'.baseReplacementHistory = segment.baseReplacementHistory) :
    RollingBack rules id tail rest (item :: scanned) scan' segment' := by
  have hnewest : newestReplacement (item :: scanned) = newestReplacement scanned := by
    rw [newestReplacement_cons, hitem, Option.or_none]
  refine ⟨?_, hturn.trans h.turnId, ?_, ?_, ?_⟩
  · rw [hstate, h.state]
  · rw [hcounts, h.counts, any_cons]
  · rw [hbase, h.base, hnewest]
  · rw [hnewest, hstate]
    rcases h.suffix with hnone | ⟨older, compacted, newer, hscanned, hrest⟩
    · exact .inl hnone
    · exact .inr ⟨item :: older, compacted, newer, congrArg (item :: ·) hscanned, hrest⟩

theorem RollingBack.compact {compacted : CompactedItem δ}
    (h : RollingBack rules id tail rest scanned scan segment)
    (hsome : compacted.replacementHistory.isSome = true) :
    RollingBack rules id tail rest (.compacted compacted :: scanned)
      (scanItem rules scan (.compacted compacted) (scanned ++ tail))
        (segment.compact rules compacted) := by
  have hsegment : scan.segment = segment := by
    rw [h.state]
    rfl
  have hnewest : newestReplacement (.compacted compacted :: scanned) =
      (newestReplacement scanned).or compacted.replacementHistory := newestReplacement_cons _ _
  refine ⟨?_, h.turnId, ?_, ?_, .inr ?_⟩
  · simp only [scanItem, Scan.inSegment, hsegment]
    rw [h.state]
  · rw [any_cons, ← h.counts]
    rfl
  · rw [hnewest, ← h.base]
    rfl
  · by_cases hfresh : segment.baseReplacementHistory = none
    · refine ⟨[], compacted, scanned, rfl, hsome, h.base ▸ hfresh, ?_⟩
      simp only [scanItem, hsegment]
      exact if_pos ⟨hfresh, hsome⟩
    · have hsuffix : (scanItem rules scan (.compacted compacted) (scanned ++ tail)).rolloutSuffix =
          scan.rolloutSuffix := by
        simp only [scanItem, hsegment]
        exact if_neg fun hboth => hfresh hboth.1
      rcases h.suffix with ⟨hnone, -⟩ | ⟨older, compacted', newer, hscanned, hsome', hnewer, hrest⟩
      · exact absurd (h.base.trans hnone) hfresh
      · exact ⟨_ :: older, compacted', newer, congrArg (_ :: ·) hscanned, hsome', hnewer,
          hsuffix.trans hrest⟩

section

variable (h : RollingBack rules id tail rest scanned scan segment)
include h

/-- One step within the turn. -/
theorem RollingBack.step (hitem : isWithinTurn item = true) :
    ∃ segment', RollingBack rules id tail rest (item :: scanned)
      (scanItem rules scan item (scanned ++ tail)) segment' := by
  have hin (change : ActiveReplaySegment δ → ActiveReplaySegment δ) :
      scan.inSegment change = { scan with activeSegment := some (change segment) } := by
    rw [h.state]
    rfl
  have hactive : scan = { scan with activeSegment := some segment } := by
    rw [h.state]
  cases item with
  | compacted compacted => exact ⟨_, h.compact hitem⟩
  | eventMsg event =>
    cases event with
    | threadRolledBack | turnStarted | turnComplete | turnAborted => cases hitem
    | userMessage payload =>
      exact ⟨_, h.keep rfl (hin fun s => { s with countsAsUserTurn := true }) rfl rfl rfl⟩
    | _ => exact ⟨segment, h.keep rfl hactive rfl (Bool.false_or _).symm rfl⟩
  | turnContext ctx =>
    have hturn : segment.turnId.or ctx.turnId = segment.turnId := by
      rw [h.turnId]
      rfl
    refine ⟨segment.context ctx, h.keep rfl (hin (·.context ctx)) ?_ ?_ ?_⟩
    all_goals
      rw [ActiveReplaySegment.context]
      split
    · exact hturn
    · exact hturn
    all_goals rfl
  | responseItem responseItem =>
    exact ⟨_, h.keep rfl
      (hin fun s =>
        { s with countsAsUserTurn := s.countsAsUserTurn || isUserTurnBoundary rules responseItem })
      rfl (Bool.or_comm _ _) rfl⟩
  | interAgentCommunication =>
    exact ⟨_, h.keep rfl (hin fun s => { s with countsAsUserTurn := true }) rfl rfl rfl⟩
  | worldState full state =>
    exact ⟨_, h.keep rfl
      (hin fun s => { s with worldStateReplay := s.worldStateReplay ++ [.worldState full state] })
      rfl (Bool.false_or _).symm rfl⟩
  | sessionMeta | interAgentCommunicationMetadata =>
    exact ⟨segment, h.keep rfl hactive rfl (Bool.false_or _).symm rfl⟩

theorem RollingBack.not_complete : scan.isComplete = false := by
  rw [h.state]
  rfl

theorem RollingBack.run (older more : List (RolloutItem δ))
    (hitems : ∀ item ∈ older, isWithinTurn item = true) :
    ∃ scan' segment', RollingBack rules id tail rest (older.reverse ++ scanned) scan' segment' ∧
      scanItems rules scan (scanned ++ tail) (older ++ more) =
        scanItems rules scan' (older.reverse ++ scanned ++ tail) more := by
  induction older generalizing scanned scan segment with
  | nil => exact ⟨scan, segment, h, rfl⟩
  | cons item older ih =>
    obtain ⟨segment', hstep⟩ := h.step (hitems item mem_cons_self)
    obtain ⟨scan'', segment'', hrun, heq⟩ :=
      ih hstep fun item hitem => hitems item (mem_cons_of_mem _ hitem)
    refine ⟨scan'', segment'', ?_, ?_⟩
    · simpa using hrun
    · rw [cons_append, scanItems, if_neg (by rw [hstep.not_complete]; exact Bool.false_ne_true)]
      simpa using heq

end

end Turn

def rolledBackOne : RolloutItem δ := .eventMsg (.threadRolledBack 1)

/-- The end of a turn that is rolled back at once. -/
def CompleteTurn.ending (turn : CompleteTurn δ) : List (RolloutItem δ) :=
  [.eventMsg (.turnComplete turn.complete), rolledBackOne]

theorem CompleteTurn.items_rolledBack (turn : CompleteTurn δ) :
    turn.items ++ [rolledBackOne] =
      .eventMsg (.turnStarted turn.started) :: (turn.body ++ turn.ending) := by
  simp [items, ending]

/-- After the scan of a user turn that is rolled back, nothing is gathered; but the suffix to replay
is that after the turn's newest compaction, if it has one. -/
theorem scan_rolled_back {items : List (RolloutItem δ)} (turn : CompleteTurn δ)
    (huser : turn.body.any (isUserItem rules) = true) :
    ∃ suffix, scanItems rules { rolloutSuffix := items ++ turn.items ++ [rolledBackOne] } []
        (items ++ turn.items ++ [rolledBackOne]).reverse =
      scanItems rules { rolloutSuffix := suffix } (turn.items ++ [rolledBackOne]) items.reverse ∧
      ((newestReplacement turn.body = none ∧ suffix = items ++ turn.items ++ [rolledBackOne]) ∨
        ∃ older compacted newer, turn.body = older ++ .compacted compacted :: newer ∧
          compacted.replacementHistory.isSome = true ∧ newestReplacement newer = none ∧
          suffix = newer ++ turn.ending) := by
  generalize hall : items ++ turn.items ++ [rolledBackOne] = all
  have hreverse : all.reverse = rolledBackOne :: .eventMsg (.turnComplete turn.complete) ::
      (turn.body.reverse ++ .eventMsg (.turnStarted turn.started) :: items.reverse) := by
    rw [← hall, CompleteTurn.items]
    simp
  have hbegin : RollingBack rules turn.started.turnId turn.ending all []
      { rolloutSuffix := all, pendingRollbackTurns := 1,
        activeSegment := some { turnId := some turn.complete.turnId } }
      { turnId := some turn.complete.turnId } :=
    ⟨rfl, congrArg some turn.sameId, rfl, rfl, .inl ⟨rfl, rfl⟩⟩
  obtain ⟨scan, segment, hrun, heq⟩ :=
    hbegin.run turn.body.reverse (.eventMsg (.turnStarted turn.started) :: items.reverse)
      fun item hitem => turn.within item (mem_reverse.1 hitem)
  rw [reverse_reverse, append_nil] at hrun heq
  refine ⟨scan.rolloutSuffix, ?_, hrun.suffix⟩
  -- the start of the turn ends the segment, which the rollback drops
  have hfinal : scanItem rules scan (.eventMsg (.turnStarted turn.started))
      (turn.body ++ turn.ending) = { rolloutSuffix := scan.rolloutSuffix } := by
    have hcounts : segment.countsAsUserTurn = true := hrun.counts.trans huser
    have hcompatible : turnIdsAreCompatible segment.turnId (some turn.started.turnId) = true := by
      rw [hrun.turnId]
      simp [turnIdsAreCompatible]
    rw [hrun.state]
    simp [scanItem, hcompatible, finalizeActiveSegment, hcounts]
  rw [hreverse, turn.items_rolledBack, ← hfinal]
  calc scanItems rules { rolloutSuffix := all } []
        (rolledBackOne :: .eventMsg (.turnComplete turn.complete) ::
          (turn.body.reverse ++ .eventMsg (.turnStarted turn.started) :: items.reverse))
      = scanItems rules
          { rolloutSuffix := all, pendingRollbackTurns := 1,
            activeSegment := some { turnId := some turn.complete.turnId } }
          turn.ending
          (turn.body.reverse ++ .eventMsg (.turnStarted turn.started) :: items.reverse) := rfl
    _ = scanItems rules scan (turn.body ++ turn.ending)
          (.eventMsg (.turnStarted turn.started) :: items.reverse) := heq
    _ = _ := by
        rw [scanItems, if_neg]
        rw [hfinal]
        exact Bool.false_ne_true

def recordedItem (rules : Recognizers δ) : RolloutItem δ → Option (ResponseItem δ)
  | .responseItem item => if isApiMessage item then some (processItem rules item) else none
  | .interAgentCommunication id author recipient content metadata =>
    some (.agentMessage id author recipient content metadata)
  | _ => none

def recorded (rules : Recognizers δ) (items : List (RolloutItem δ)) : List (ResponseItem δ) :=
  items.filterMap (recordedItem rules)

theorem replay_recorded {items : List (RolloutItem δ)} {replay : Replay δ}
    (hitems : ∀ item ∈ items, isWithinTurn item = true) (hnone : newestReplacement items = none) :
    (replayItems rules replay items).history = replay.history ++ recorded rules items := by
  have hreplacement : ∀ item ∈ items, replacement? item = none := by
    intro item hitem
    exact findSome?_eq_none_iff.1 hnone item (mem_reverse.2 hitem)
  clear hnone
  induction items generalizing replay with
  | nil => simp [replayItems, recorded]
  | cons item items ih =>
    have hstep : (replayItem rules replay item).history =
        replay.history ++ (recordedItem rules item).toList := by
      have hitem := hitems item mem_cons_self
      have hno := hreplacement item mem_cons_self
      cases item with
      | compacted compacted =>
        simp only [replacement?] at hno
        simp [isWithinTurn, isReplayable, hno] at hitem
      | responseItem item =>
        simp only [replayItem, recordItem, recordedItem]
        split <;> simp
      | interAgentCommunication => rfl
      | eventMsg event =>
        cases event with
        | threadRolledBack numTurns => cases hitem
        | _ => exact (append_nil _).symm
      | _ => exact (append_nil _).symm
    rw [replayItems, foldl_cons, ← replayItems,
      ih (fun item hitem => hitems item (mem_cons_of_mem _ hitem))
      fun item hitem => hreplacement item (mem_cons_of_mem _ hitem), hstep, append_assoc]
    congr 1
    rw [recorded, recorded, filterMap_cons]
    cases recordedItem rules item <;> rfl

section History

variable {items : List (RolloutItem δ)} {turn : CompleteTurn δ}

theorem replay_turn_end (replay : Replay δ) (newer : List (RolloutItem δ)) :
    (replayItems rules replay (newer ++ turn.ending)).history =
      dropLastNUserTurns rules (replayItems rules replay newer).history 1 := by
  rw [replayItems_append]
  rfl

theorem replay_turn (replay : Replay δ) :
    (replayItems rules replay (turn.items ++ [rolledBackOne])).history =
      dropLastNUserTurns rules (replayItems rules replay turn.body).history 1 := by
  rw [turn.items_rolledBack]
  exact replay_turn_end _ _

theorem newer_eq_of_split {between newer newer' : List (RolloutItem δ)}
    {compacted compacted' : CompactedItem δ}
    (h : RolloutItem.compacted compacted' :: newer' = between ++ .compacted compacted :: newer)
    (hsome : compacted.replacementHistory.isSome = true)
    (hnewer : newestReplacement newer' = none) : newer' = newer := by
  cases between with
  | nil =>
    cases h
    rfl
  | cons item between =>
    rw [cons_append] at h
    obtain ⟨-, hrest⟩ := cons.inj h
    rw [hrest, newestReplacement_append, newestReplacement_cons, Option.or_eq_none_iff,
      Option.or_eq_none_iff] at hnewer
    simp only [replacement?] at hnewer
    rw [hnewer.1.2] at hsome
    cases hsome

variable (hitems : ∀ item ∈ items, isReplayable item = true)
  (huser : turn.body.any (isUserItem rules) = true)
include hitems huser

theorem rolled_back_history_of_none (hnone : newestReplacement turn.body = none) :
    (reconstructHistoryFromRollout rules (items ++ turn.items ++ [rolledBackOne])).history =
      dropLastNUserTurns rules (remembered rules items ++ recorded rules turn.body) 1 := by
  obtain ⟨suffix, hscan, hsuffix⟩ := @scan_rolled_back _ rules items turn huser
  have hrest : suffix = items ++ turn.items ++ [rolledBackOne] := by
    rcases hsuffix with ⟨-, hrest⟩ | ⟨older, compacted, newer, hbody, hsome, -⟩
    · exact hrest
    · rw [hbody, newestReplacement_append, newestReplacement_cons] at hnone
      obtain ⟨replacement, hreplacement⟩ := Option.isSome_iff_exists.1 hsome
      simp [replacement?, hreplacement] at hnone
  obtain ⟨hbase, hfound⟩ :=
    @scan_found _ rules _ _ _ _ hitems (tracks_nil suffix (turn.items ++ [rolledBackOne]))
  rw [reconstructHistoryFromRollout, hscan]
  have hremembered (replay : Replay δ) (h : replay.history = remembered rules items) :
      (replayItems rules replay (turn.items ++ [rolledBackOne])).history =
        dropLastNUserTurns rules (remembered rules items ++ recorded rules turn.body) 1 := by
    rw [replay_turn, replay_recorded turn.within hnone, h]
  rw [hbase]
  rcases hfound with ⟨hnewest, hfound⟩ | ⟨older, compacted, newer, hsplit, hsome, hfound⟩
  · rw [hfound, hrest, append_assoc, replayItems_append, hnewest]
    exact hremembered _ rfl
  · rw [hfound, replayItems_append]
    exact hremembered _ (replay_from_newest hsplit hsome)

/-- The history after the rollback of a turn with a compaction begins with that compaction's
replacement history, or with nothing if no turn before it has one. -/
theorem rolled_back_history_of_compacted {older newer : List (RolloutItem δ)}
    {compacted : CompactedItem δ} {replacement : List (ResponseItem δ)}
    (hbody : turn.body = older ++ .compacted compacted :: newer)
    (hnewer : newestReplacement newer = none)
    (hreplacement : compacted.replacementHistory = some replacement) :
    (reconstructHistoryFromRollout rules (items ++ turn.items ++ [rolledBackOne])).history =
      dropLastNUserTurns rules
        ((if (newestReplacement items).isSome then replacement else []) ++
          recorded rules newer) 1 := by
  obtain ⟨suffix, hscan, hsuffix⟩ := @scan_rolled_back _ rules items turn huser
  have hwithin : ∀ item ∈ newer, isWithinTurn item = true := by
    intro item hitem
    refine turn.within item ?_
    rw [hbody]
    exact mem_append_right _ (mem_cons_of_mem _ hitem)
  have hrest : suffix = newer ++ turn.ending := by
    rcases hsuffix with ⟨hnone, -⟩ | ⟨older', compacted', newer', hbody', hsome', hnewer', hrest⟩
    · rw [hbody, newestReplacement_append, newestReplacement_cons] at hnone
      simp [replacement?, hreplacement] at hnone
    · rw [hrest]
      congr 1
      have hsome : compacted.replacementHistory.isSome = true :=
        Option.isSome_iff_exists.2 ⟨_, hreplacement⟩
      have hsplit := hbody'.symm.trans hbody
      rcases append_eq_append_iff.1 hsplit with ⟨between, -, h⟩ | ⟨between, -, h⟩
      · exact newer_eq_of_split h hsome hnewer'
      · exact (newer_eq_of_split h hsome' hnewer).symm
  obtain ⟨hbase, hfound⟩ :=
    @scan_found _ rules _ _ _ _ hitems (tracks_nil suffix (turn.items ++ [rolledBackOne]))
  rw [reconstructHistoryFromRollout, hscan]
  rw [hbase]
  rcases hfound with ⟨hnewest, hfound⟩ | ⟨older', compacted', newer', hsplit, hsome, hfound⟩
  · rw [hfound, hrest, hnewest, replay_turn_end, replay_recorded hwithin hnewer]
    rfl
  · have hsome' : (newestReplacement items).isSome = true := by
      rw [hsplit, newestReplacement_append, newestReplacement_cons]
      simp [replacement?, hsome]
    rw [hfound, replayItems_append, replay_turn, if_pos hsome', hbody,
      replay_compacted hreplacement, replay_recorded hwithin hnewer]

end History

/-- Dropping the turn gives `history` back: if it has an instruction, every item before the turn's
own is a context update and the last of `history` is none; otherwise there is no item before the
turn's own. -/
def RestoredBy (rules : Recognizers δ) (history pre : List (ResponseItem δ)) : Prop :=
  if history.any (isUserTurnBoundary rules) then
    (∀ item ∈ pre, isPreTurnContextUpdate rules item = true) ∧
      history.getLast?.any (isPreTurnContextUpdate rules) = false
  else pre = []

/-- What is left of `replayed` without its last turn is `history`: there is no turn in it and it is
`history`, or it goes on from `history` to the turn that gives it back. -/
def Leaves (rules : Recognizers δ) (replayed history : List (ResponseItem δ)) : Prop :=
  (replayed = history ∧ ∀ item ∈ history, isUserTurnBoundary rules item = false) ∨
    ∃ pre boundary post, replayed = history ++ pre ++ boundary :: post ∧
      isUserTurnBoundary rules boundary = true ∧
      (∀ item ∈ post, isUserTurnBoundary rules item = false) ∧ RestoredBy rules history pre

theorem dropLast_one_eq_iff_leaves {replayed history : List (ResponseItem δ)} :
    dropLastNUserTurns rules replayed 1 = history ↔ Leaves rules replayed history := by
  by_cases hany : replayed.any (isUserTurnBoundary rules) = true
  · obtain ⟨first, boundary, post, rfl, hboundary, hpost⟩ := exists_last_boundary hany
    constructor
    · intro h
      -- what is left is the start of the items before the last boundary
      obtain ⟨pre, rfl⟩ : history <+: first := by
        rw [← h, dropLast_one hboundary hpost]
        have hstart (n : ℕ) (p : ResponseItem δ → Bool) :
            first.take n ++ (first.drop n).rdropWhile p <+: first.take n ++ first.drop n :=
          (prefix_append_right_inj _).2 <| rdropWhile_prefix _ _
        simpa only [take_append_drop] using hstart _ _
      exact .inr ⟨pre, boundary, post, rfl, hboundary, hpost,
        (dropLast_one_eq_iff hboundary hpost).1 h⟩
    · rintro (⟨rfl, hnone⟩ | ⟨pre, boundary', post', hsplit, hboundary', hpost', hrestored⟩)
      · exact absurd hboundary (by simp [hnone boundary (by simp)])
      · rw [hsplit]
        exact (dropLast_one_eq_iff hboundary' hpost').2 hrestored
  · rw [Bool.not_eq_true] at hany
    rw [dropLastNUserTurns_of_none hany]
    constructor
    · rintro rfl
      exact .inl ⟨rfl, fun item hitem => Bool.eq_false_iff.2 (any_eq_false.1 hany item hitem)⟩
    · rintro (⟨h, -⟩ | ⟨pre, boundary, post, rfl, hboundary, -⟩)
      · exact h
      · simp [hboundary] at hany

/-- Rolling back the last turn restores the settings and the context of the turns before it. It
restores their history just when dropping the turn's items gives it back; for a turn with a
compaction, just when the replacement history, with what the turn records after it, goes on from
that history. -/
theorem rollback_restores (rules : Recognizers δ) (turns : List (CompleteTurn δ))
    (turn : CompleteTurn δ)
    (huser : ∃ item, .responseItem item ∈ turn.body ∧ isUserTurnBoundary rules item = true) :
    let items := turns.flatMap CompleteTurn.items
    let before := reconstructHistoryFromRollout rules items
    let after := reconstructHistoryFromRollout rules (items ++ turn.items ++ [rolledBackOne])
    after.previousTurnSettings = before.previousTurnSettings ∧
    after.referenceContextItem = before.referenceContextItem ∧
    (newestReplacement turn.body = none →
      ∀ pre boundary post, recorded rules turn.body = pre ++ boundary :: post →
      isUserTurnBoundary rules boundary = true →
        (∀ item ∈ post, isUserTurnBoundary rules item = false) →
      (after.history = before.history ↔ RestoredBy rules (remembered rules items) pre)) ∧
    (∀ older compacted newer replacement, turn.body = older ++ .compacted compacted :: newer →
      newestReplacement newer = none → compacted.replacementHistory = some replacement →
      (after.history = before.history ↔
        Leaves rules
          ((if (newestReplacement items).isSome then replacement else []) ++ recorded rules newer)
          (remembered rules items))) := by
  intro items before after
  have hitems : ∀ item ∈ items, isReplayable item = true := by
    intro item hitem
    obtain ⟨turn, -, hitem⟩ := mem_flatMap.1 hitem
    exact turn.replayable item hitem
  have huser' : turn.body.any (isUserItem rules) = true := by
    obtain ⟨item, hitem, hboundary⟩ := huser
    exact any_eq_true.2 ⟨_, hitem, hboundary⟩
  obtain ⟨suffix, hscan, -⟩ := @scan_rolled_back _ rules items turn huser'
  have hsame : SameScan (scanItems rules { rolloutSuffix := items } [] items.reverse).finish
      (scanItems rules { rolloutSuffix := suffix }
        (turn.items ++ [rolledBackOne]) items.reverse).finish :=
    (SameScan.run
      (show SameScan { rolloutSuffix := items } { rolloutSuffix := suffix } from rfl) _ _ _).finish
  have hreplaced : ∀ compacted, .compacted compacted ∈ items ++ turn.items ++ [rolledBackOne] →
      compacted.replacementHistory.isSome = true := by
    intro compacted hmem
    rw [mem_append, mem_append, mem_singleton] at hmem
    rcases hmem with (hmem | hmem) | hmem
    · exact hitems _ hmem
    · exact turn.replayable _ hmem
    · cases hmem
  refine ⟨?_, ?_, ?_, ?_⟩
  · simp only [after, before, reconstructHistoryFromRollout]
    rw [hscan, hsame]
  · rw [show after.referenceContextItem = _ from reconstruct_reference hreplaced,
      show before.referenceContextItem = _ from reconstruct_reference fun compacted hmem =>
        hitems _ hmem, hscan, hsame]
  · intro hnone pre boundary post hrecorded hboundary hpost
    rw [show before.history = remembered rules items from reconstruct_history hitems,
      show after.history = _ from rolled_back_history_of_none hitems huser' hnone,
        hrecorded, ← append_assoc]
    exact dropLast_one_eq_iff hboundary hpost
  · intro older compacted newer replacement hbody hnewer hreplacement
    rw [show before.history = remembered rules items from reconstruct_history hitems,
      show after.history =
        _ from rolled_back_history_of_compacted hitems huser' hbody hnewer hreplacement]
    exact dropLast_one_eq_iff_leaves

/-! A conversation of plain texts. -/

/-- Plain texts are neither context nor instructions of another agent. -/
def plainTexts : Recognizers Unit where
  isContextualUserFragment _ := false
  isContextualDevFragment _ := false
  isInterAgentInstructionContent _ := false
  truncateFunctionOutputPayload output := output
  buildCompactedHistory history _ := history
  parseUuidV7 _ := none
  readSnapshot _ := none
  applyMergePatch _ _ := none

def plainMessage (role text : String) : ResponseItem Unit :=
  .message none role.toList [.inputText text.toList] none none

def plainTurn (id : String) (body : List (RolloutItem Unit))
    (h : ∀ item ∈ body, isWithinTurn item = true) : CompleteTurn Unit :=
  ⟨⟨id.toList, none⟩, body, ⟨id.toList, none, none, none⟩, h, rfl⟩

def questionTurn (id : String) : CompleteTurn Unit :=
  plainTurn id [.responseItem (plainMessage "user" "question"),
    .responseItem (plainMessage "assistant" "answer")]
    (by decide)

/-- The second of two turns is rolled back. -/
theorem rollback_restores_second :
    (reconstructHistoryFromRollout plainTexts
      ([questionTurn "1"].flatMap CompleteTurn.items ++ (questionTurn "2").items ++
        [rolledBackOne])).history =
    (reconstructHistoryFromRollout plainTexts
      ([questionTurn "1"].flatMap CompleteTurn.items)).history := by
  have huser : ∃ item, .responseItem item ∈ (questionTurn "2").body ∧
      isUserTurnBoundary plainTexts item = true :=
    ⟨plainMessage "user" "question", mem_cons_self, by decide⟩
  refine ((rollback_restores plainTexts [questionTurn "1"] (questionTurn "2") huser).2.2.1 rfl []
    (plainMessage "user" "question") [plainMessage "assistant" "answer"] ?_ ?_ ?_).2 ?_
  · decide +kernel
  · decide
  · decide
  · exact ⟨nofun, by decide +kernel⟩

/-- The turn that is rolled back has compacted the history: the turn before it is lost, and its own
last answer stays. -/
theorem compacted_turn_not_rolled_back :
    let compactedTurn := plainTurn "2"
      [.responseItem (plainMessage "user" "second question"),
        .compacted ⟨"summary".toList, some [plainMessage "user" "summary"], none, none, none, none⟩,
        .responseItem (plainMessage "assistant" "second answer")] (by decide)
    (reconstructHistoryFromRollout plainTexts
      ([questionTurn "1"].flatMap CompleteTurn.items)).history =
      [plainMessage "user" "question", plainMessage "assistant" "answer"] ∧
    (reconstructHistoryFromRollout plainTexts
      ([questionTurn "1"].flatMap CompleteTurn.items ++ compactedTurn.items ++
        [rolledBackOne])).history =
      [plainMessage "assistant" "second answer"] := by
  decide +kernel

end OmniDoer.Conversation
