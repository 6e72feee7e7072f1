import OmniDoer.Verification.Conversation.History

/-! # The reverse scan and the forward replay

The reconstruction scans a rollout from its newest item to find the history to begin with. Without
rollbacks it rebuilds what a replay of all items builds. -/

namespace OmniDoer.Conversation

open Rust List Option

variable {δ : Type} {rules : Recognizers δ}

def replacement? : RolloutItem δ → Option (List (ResponseItem δ))
  | .compacted compacted => compacted.replacementHistory
  | _ => none

def newestReplacement (items : List (RolloutItem δ)) : Option (List (ResponseItem δ)) :=
  items.reverse.findSome? replacement?

theorem newestReplacement_append (older newer : List (RolloutItem δ)) :
    newestReplacement (older ++ newer) =
      (newestReplacement newer).or (newestReplacement older) := by
  rw [newestReplacement, reverse_append, findSome?_append]
  rfl

theorem newestReplacement_cons (item : RolloutItem δ) (newer : List (RolloutItem δ)) :
    newestReplacement (item :: newer) = (newestReplacement newer).or (replacement? item) := by
  simp [newestReplacement]

/-- Neither a rollback nor a compaction without replacement history. -/
def isReplayable : RolloutItem δ → Bool
  | .compacted compacted => compacted.replacementHistory.isSome
  | .eventMsg (.threadRolledBack _) => false
  | _ => true

/-- What an item that is neither a compaction nor a rollback does to the scan: it changes the
segment, but not its replacement history, or it ends the segment. -/
inductive ScanMove (scan scan' : Scan δ) : Prop
  | segment (active : Option (ActiveReplaySegment δ))
    (hscan : scan' = { scan with activeSegment := active })
      (hbase : (active.getD {}).baseReplacementHistory = scan.segment.baseReplacementHistory)
  | finalize (segment : ActiveReplaySegment δ) (hactive : scan.activeSegment = some segment)
      (hscan : scan' = finalizeActiveSegment { scan with activeSegment := none } segment)

variable (scan : Scan δ)

theorem scanItem_cases (item : RolloutItem δ) (newer : List (RolloutItem δ)) :
    (∃ compacted, item = .compacted compacted) ∨
      (∃ numTurns, item = .eventMsg (.threadRolledBack numTurns)) ∨
      (replacement? item = none ∧ ScanMove scan (scanItem rules scan item newer)) := by
  cases item with
  | compacted compacted => exact .inl ⟨compacted, rfl⟩
  | eventMsg event =>
    cases event with
    | threadRolledBack numTurns => exact .inr (.inl ⟨numTurns, rfl⟩)
    | turnStarted event =>
      refine .inr (.inr ⟨rfl, ?_⟩)
      simp only [scanItem]
      split
      · rename_i segment hsegment
        split
        · exact .finalize segment hsegment rfl
        · exact .segment _ rfl rfl
      · exact .segment _ rfl rfl
    | turnAborted event =>
      refine .inr (.inr ⟨rfl, ?_⟩)
      simp only [scanItem]
      split
      · exact .segment _ rfl (by simp_all [Scan.segment])
      · exact .segment _ rfl (by simp_all [Scan.segment])
      · exact .segment _ rfl rfl
    | _ => exact .inr (.inr ⟨rfl, .segment _ rfl rfl⟩)
  | turnContext ctx =>
    refine .inr (.inr ⟨rfl, .segment _ rfl ?_⟩)
    change (scan.segment.context ctx).baseReplacementHistory = _
    rw [ActiveReplaySegment.context]
    split <;> rfl
  | _ => exact .inr (.inr ⟨rfl, .segment _ rfl rfl⟩)

variable (segment : ActiveReplaySegment δ)

theorem finalize_rolloutSuffix :
    (finalizeActiveSegment scan segment).rolloutSuffix = scan.rolloutSuffix := by
  rw [finalizeActiveSegment]
  split <;> rfl

theorem finalize_activeSegment :
    (finalizeActiveSegment scan segment).activeSegment = scan.activeSegment := by
  rw [finalizeActiveSegment]
  split <;> rfl

theorem ScanMove.rolloutSuffix {scan scan' : Scan δ} (h : ScanMove scan scan') :
    scan'.rolloutSuffix = scan.rolloutSuffix := by
  cases h with
  | segment active hscan hbase => rw [hscan]
  | finalize segment hactive hscan => rw [hscan, finalize_rolloutSuffix]

/-- The scan has passed `scanned`, which `tail` follows: it has its newest replacement history, and
the suffix to replay is what follows one of the compactions, or still `rest` if there was none. -/
structure Tracks (tail rest scanned : List (RolloutItem δ)) (scan : Scan δ) : Prop where
  settled : scan.pendingRollbackTurns = 0
  base : scan.baseReplacementHistory.or scan.segment.baseReplacementHistory =
    newestReplacement scanned
  suffix : (newestReplacement scanned = none ∧ scan.rolloutSuffix = rest) ∨
    ∃ older compacted newer, scanned = older ++ .compacted compacted :: newer ∧
      compacted.replacementHistory.isSome = true ∧ scan.rolloutSuffix = newer ++ tail

section Step

variable {tail rest scanned : List (RolloutItem δ)} {scan : Scan δ} {item : RolloutItem δ}

theorem Tracks.keep (h : Tracks tail rest scanned scan) (hitem : replacement? item = none)
    {scan' : Scan δ} (hpending : scan'.pendingRollbackTurns = scan.pendingRollbackTurns)
    (hbase : scan'.baseReplacementHistory.or scan'.segment.baseReplacementHistory =
      scan.baseReplacementHistory.or scan.segment.baseReplacementHistory)
    (hsuffix : scan'.rolloutSuffix = scan.rolloutSuffix) :
    Tracks tail rest (item :: scanned) scan' := by
  have hnewest : newestReplacement (item :: scanned) = newestReplacement scanned := by
    rw [newestReplacement_cons, hitem, or_none]
  refine ⟨hpending.trans h.settled, hbase.trans (h.base.trans hnewest.symm), ?_⟩
  rw [hnewest, hsuffix]
  rcases h.suffix with hnone | ⟨older, compacted, newer, hscanned, hsome, hsuffix⟩
  · exact .inl hnone
  · exact .inr ⟨item :: older, compacted, newer, congrArg (item :: ·) hscanned, hsome, hsuffix⟩

theorem Tracks.compact {compacted : CompactedItem δ} (h : Tracks tail rest scanned scan)
    (hsome : compacted.replacementHistory.isSome = true) :
    Tracks tail rest (.compacted compacted :: scanned)
      (scanItem rules scan (.compacted compacted) (scanned ++ tail)) := by
  have hnewest : newestReplacement (.compacted compacted :: scanned) =
      (newestReplacement scanned).or compacted.replacementHistory := newestReplacement_cons _ _
  refine ⟨h.settled, ?_, .inr ?_⟩
  · rw [hnewest, ← h.base, Option.or_assoc]
    rfl
  · by_cases hfresh : scan.segment.baseReplacementHistory = none
    · refine ⟨[], compacted, scanned, rfl, hsome, ?_⟩
      exact if_pos ⟨hfresh, hsome⟩
    · -- the segment has a newer compaction already
      have hsuffix : (scanItem rules scan (.compacted compacted) (scanned ++ tail)).rolloutSuffix =
          scan.rolloutSuffix :=
        if_neg fun hboth => hfresh hboth.1
      rcases h.suffix with ⟨hnone, -⟩ | ⟨older, compacted', newer, hscanned, hsome', hrest⟩
      · have hbase := h.base
        rw [hnone, or_eq_none_iff] at hbase
        exact absurd hbase.2 hfresh
      · exact ⟨_ :: older, compacted', newer, congrArg (_ :: ·) hscanned, hsome',
          hsuffix.trans hrest⟩

theorem finalize_of_settled {segment : ActiveReplaySegment δ} (h : scan.pendingRollbackTurns = 0) :
    (finalizeActiveSegment scan segment).pendingRollbackTurns = 0 ∧
      (finalizeActiveSegment scan segment).baseReplacementHistory =
        scan.baseReplacementHistory.or segment.baseReplacementHistory := by
  rw [finalizeActiveSegment, if_neg (by omega)]
  exact ⟨h, rfl⟩

theorem Tracks.step (h : Tracks tail rest scanned scan) (hitem : isReplayable item = true) :
    Tracks tail rest (item :: scanned) (scanItem rules scan item (scanned ++ tail)) := by
  rcases @scanItem_cases _ rules scan item (scanned ++ tail) with
    ⟨compacted, rfl⟩ | ⟨numTurns, rfl⟩ | ⟨hnone, hmove⟩
  · exact h.compact hitem
  · cases hitem
  · have hsuffix := hmove.rolloutSuffix
    cases hmove with
    | segment active hscan hbase =>
      rw [hscan] at hsuffix ⊢
      exact h.keep hnone rfl (congrArg (scan.baseReplacementHistory.or ·) hbase) rfl
    | finalize segment hactive hscan =>
      obtain ⟨hpending, hbase⟩ :=
        @finalize_of_settled _ { scan with activeSegment := none } segment h.settled
      refine h.keep hnone ?_ ?_ hsuffix
      · rw [hscan, hpending, h.settled]
      · rw [hscan, hbase, Scan.segment, finalize_activeSegment, Scan.segment, hactive]
        simp

theorem Tracks.run {older : List (RolloutItem δ)} (h : Tracks tail rest scanned scan)
    (hitems : ∀ item ∈ older, isReplayable item = true) :
    ∃ unread scanned', older.reverse ++ scanned = unread ++ scanned' ∧
      Tracks tail rest scanned' (scanItems rules scan (scanned ++ tail) older) ∧
      (unread = [] ∨ (newestReplacement scanned').isSome = true) := by
  induction older generalizing scanned scan with
  | nil => exact ⟨[], scanned, rfl, h, .inl rfl⟩
  | cons item older ih =>
    have hstep : Tracks tail rest (item :: scanned) (scanItem rules scan item (scanned ++ tail)) :=
      h.step (hitems item mem_cons_self)
    rw [scanItems, reverse_cons, append_assoc]
    by_cases hcomplete : (scanItem rules scan item (scanned ++ tail)).isComplete = true
    · rw [if_pos hcomplete]
      refine ⟨older.reverse, item :: scanned, rfl, hstep, .inr ?_⟩
      rw [Scan.isComplete, Bool.and_eq_true, Bool.and_eq_true] at hcomplete
      rw [← hstep.base, isSome_or, hcomplete.1.1]
      rfl
    · rw [if_neg hcomplete]
      exact ih hstep fun item hitem => hitems item (mem_cons_of_mem _ hitem)

theorem Tracks.finish (h : Tracks tail rest scanned scan) :
    scan.finish.baseReplacementHistory = newestReplacement scanned ∧
      scan.finish.rolloutSuffix = scan.rolloutSuffix := by
  have hbase := h.base
  rw [Scan.segment] at hbase
  rw [Scan.finish]
  split
  · rename_i segment hsegment
    rw [hsegment] at hbase
    have hfinal := (@finalize_of_settled _ { scan with activeSegment := none } segment h.settled).2
    exact ⟨hfinal.trans hbase, finalize_rolloutSuffix _ _⟩
  · rename_i hnone
    rw [hnone] at hbase
    refine ⟨?_, rfl⟩
    rw [← hbase]
    simp

theorem scan_found {items : List (RolloutItem δ)}
    (hitems : ∀ item ∈ items, isReplayable item = true) (h : Tracks tail rest [] scan) :
    (scanItems rules scan tail items.reverse).finish.baseReplacementHistory =
      newestReplacement items ∧
      ((newestReplacement items = none ∧
        (scanItems rules scan tail items.reverse).finish.rolloutSuffix = rest) ∨
        ∃ older compacted newer, items = older ++ .compacted compacted :: newer ∧
          compacted.replacementHistory.isSome = true ∧
          (scanItems rules scan tail items.reverse).finish.rolloutSuffix = newer ++ tail) := by
  obtain ⟨unread, scanned, hread, htracks, hstop⟩ :=
    @Tracks.run _ rules _ _ _ _ items.reverse h fun item hitem => hitems item (mem_reverse.1 hitem)
  rw [reverse_reverse, append_nil] at hread
  rw [nil_append] at htracks
  have hnewest : newestReplacement items = newestReplacement scanned := by
    rw [hread, newestReplacement_append]
    rcases hstop with rfl | hsome
    · simp [newestReplacement]
    · obtain ⟨replacement, hreplacement⟩ := isSome_iff_exists.1 hsome
      rw [hreplacement]
      rfl
  obtain ⟨hbase, hsuffix⟩ := htracks.finish
  refine ⟨hbase.trans hnewest.symm, ?_⟩
  rw [hsuffix, hnewest]
  rcases htracks.suffix with hnone | ⟨older, compacted, newer, hscanned, hsome, hrest⟩
  · exact .inl hnone
  · refine .inr ⟨unread ++ older, compacted, newer, ?_, hsome, hrest⟩
    rw [hread, hscanned, append_assoc]

end Step

section Replay

variable {items : List (RolloutItem δ)} {replay replay' : Replay δ}

theorem replayItems_append (items items' : List (RolloutItem δ)) :
    replayItems rules replay (items ++ items') =
      replayItems rules (replayItems rules replay items) items' :=
  foldl_append

theorem replayItem_saw {item : RolloutItem δ} (hitem : ∀ compacted, item = .compacted compacted →
    compacted.replacementHistory.isSome = true) :
    (replayItem rules replay item).sawLegacyCompaction = replay.sawLegacyCompaction := by
  cases item with
  | compacted compacted =>
    obtain ⟨replacement, h⟩ := isSome_iff_exists.1 (hitem compacted rfl)
    simp [replayItem, h]
  | eventMsg event => cases event <;> rfl
  | _ => rfl

variable (hitems : ∀ compacted, .compacted compacted ∈ items →
  compacted.replacementHistory.isSome = true)

include hitems in
theorem replayItems_saw :
    (replayItems rules replay items).sawLegacyCompaction = replay.sawLegacyCompaction := by
  induction items generalizing replay with
  | nil => rfl
  | cons item items ih =>
    rw [replayItems, foldl_cons, ← replayItems, ih fun c hc => hitems c (mem_cons_of_mem _ hc),
      replayItem_saw]
    rintro compacted rfl
    exact hitems compacted mem_cons_self

theorem scanItem_suffix (item : RolloutItem δ) (newer : List (RolloutItem δ)) :
    (scanItem rules scan item newer).rolloutSuffix = newer ∨
      (scanItem rules scan item newer).rolloutSuffix = scan.rolloutSuffix := by
  rcases @scanItem_cases _ rules scan item newer with
    ⟨compacted, rfl⟩ | ⟨numTurns, rfl⟩ | ⟨-, hmove⟩
  · simp only [scanItem]
    split
    · exact .inl rfl
    · exact .inr rfl
  · exact .inr rfl
  · exact .inr hmove.rolloutSuffix

theorem scanItems_suffix {scan : Scan δ} {older newer : List (RolloutItem δ)}
    (hall : older.reverse ++ newer = items) (hsuffix : scan.rolloutSuffix <:+ items) :
    (scanItems rules scan newer older).rolloutSuffix <:+ items := by
  induction older generalizing scan newer with
  | nil => exact hsuffix
  | cons item older ih =>
    have hnewer : newer <:+ items := by
      rw [← hall]
      exact suffix_append _ _
    have hstep : (scanItem rules scan item newer).rolloutSuffix <:+ items := by
      rcases @scanItem_suffix _ rules scan item newer with h | h <;> rwa [h]
    rw [scanItems]
    split
    · exact hstep
    · refine ih ?_ hstep
      rw [← hall, reverse_cons, append_assoc, singleton_append]

include hitems in
theorem reconstruct_reference :
    (reconstructHistoryFromRollout rules items).referenceContextItem =
      (scanItems rules { rolloutSuffix := items }
        [] items.reverse).finish.referenceContextItem.item := by
  have hsuffix : (scanItems rules { rolloutSuffix := items }
      [] items.reverse).finish.rolloutSuffix <:+ items := by
    have hscan :
        (scanItems rules { rolloutSuffix := items } [] items.reverse).rolloutSuffix <:+ items :=
      scanItems_suffix (by simp) (suffix_refl items)
    rw [Scan.finish]
    split
    · rw [finalize_rolloutSuffix]
      exact hscan
    · exact hscan
  simp only [reconstructHistoryFromRollout]
  rw [replayItems_saw fun compacted hmem => hitems compacted (hsuffix.subset hmem)]
  rfl

theorem replayItems_history (h : replay.history = replay'.history) (items : List (RolloutItem δ)) :
    (replayItems rules replay items).history = (replayItems rules replay' items).history := by
  induction items generalizing replay replay' with
  | nil => exact h
  | cons item items ih =>
    refine ih ?_
    cases item with
    | compacted compacted =>
      simp only [replayItem]
      rw [h]
      split <;> rfl
    | eventMsg event => cases event <;> simp [replayItem, h]
    | _ => simp [replayItem, h]

theorem replay_compacted {compacted : CompactedItem δ} {replacement : List (ResponseItem δ)}
    (h : compacted.replacementHistory = some replacement) (older newer : List (RolloutItem δ)) :
    (replayItems rules replay (older ++ .compacted compacted :: newer)).history =
      (replayItems rules { history := replacement } newer).history := by
  rw [replayItems_append]
  refine replayItems_history ?_ newer
  simp [replayItem, h]

theorem exists_of_newestReplacement (h : (newestReplacement items).isSome = true) :
    ∃ older compacted newer, items = older ++ .compacted compacted :: newer ∧
      compacted.replacementHistory.isSome = true := by
  obtain ⟨replacement, hnewest⟩ := isSome_iff_exists.1 h
  obtain ⟨item, hmem, hitem⟩ := exists_of_findSome?_eq_some hnewest
  cases item with
  | compacted compacted =>
    obtain ⟨older, newer, hsplit⟩ := append_of_mem (mem_reverse.1 hmem)
    exact ⟨older, compacted, newer, hsplit, isSome_iff_exists.2 ⟨replacement, hitem⟩⟩
  | _ => cases hitem

theorem replay_of_newest (h : (newestReplacement items).isSome = true) :
    (replayItems rules replay items).history = (replayItems rules replay' items).history := by
  obtain ⟨older, compacted, newer, rfl, hsome⟩ := exists_of_newestReplacement h
  obtain ⟨replacement, hreplacement⟩ := isSome_iff_exists.1 hsome
  rw [replay_compacted hreplacement, replay_compacted hreplacement]

def remembered (rules : Recognizers δ) (items : List (RolloutItem δ)) : List (ResponseItem δ) :=
  (replayItems rules { history := [] } items).history

theorem replay_from_newest {older newer : List (RolloutItem δ)} {compacted : CompactedItem δ}
    (hsplit : items = older ++ .compacted compacted :: newer)
    (hsome : compacted.replacementHistory.isSome = true) :
    (replayItems rules { history := (newestReplacement items).getD [] } newer).history =
      remembered rules items := by
  obtain ⟨replacement, hreplacement⟩ := isSome_iff_exists.1 hsome
  rw [remembered, hsplit, replay_compacted hreplacement]
  cases hnewer : newestReplacement newer with
  | some newest =>
    refine replay_of_newest ?_
    rw [hnewer]
    rfl
  | none =>
    rw [newestReplacement_append, newestReplacement_cons, hnewer]
    simp [replacement?, hreplacement]

theorem tracks_nil (rest tail : List (RolloutItem δ)) :
    Tracks tail rest [] { rolloutSuffix := rest } :=
  ⟨rfl, rfl, .inl ⟨rfl, rfl⟩⟩

theorem reconstruct_history (hitems : ∀ item ∈ items, isReplayable item = true) :
    (reconstructHistoryFromRollout rules items).history = remembered rules items := by
  obtain ⟨hbase, hsuffix⟩ := @scan_found _ rules _ _ _ _ hitems (tracks_nil items [])
  rw [reconstructHistoryFromRollout, hbase]
  rcases hsuffix with ⟨hnone, hsuffix⟩ | ⟨older, compacted, newer, hsplit, hsome, hsuffix⟩
  · rw [hsuffix, hnone]
    rfl
  · rw [hsuffix, append_nil]
    exact replay_from_newest hsplit hsome

end Replay

end OmniDoer.Conversation
