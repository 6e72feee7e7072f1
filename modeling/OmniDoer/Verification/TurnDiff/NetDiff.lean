import OmniDoer.Verification.TurnDiff.Tracking

/-! # The net difference

A refresh compares each path that is there at the start of the turn or now with itself, or
with the one path that it was renamed to. -/

namespace OmniDoer.TurnDiff

open Rust Tables ApplyPatch List Option Table Prod

variable {π : Type} [DecidableEq π]

namespace TurnDiffTracker

section Pairs

variable {renames : PathMap π} {paths handled : List (TrackedPath π)} {p : TrackedPath π}

theorem mem_left_pairEach :
    p ∈ (pairEach renames paths handled).map Prod.fst ↔
      p ∈ paths ∧ p ∉ handled ∧ p ∉ renames.rows.map Prod.snd := by
  induction paths generalizing handled with
  | nil => simp [pairEach]
  | cons path rest ih =>
    rw [pairEach]
    split
    · rename_i hhandled
      rw [ih, mem_cons]
      refine ⟨fun h => ⟨.inr h.1, h.2⟩, fun ⟨hmem, hnot⟩ => ⟨hmem.resolve_left ?_, hnot⟩⟩
      rintro rfl
      exact hnot.1 hhandled
    · rename_i hhandled
      split
      · rename_i hdest
        rw [ih, mem_cons, mem_cons, not_or]
        refine ⟨fun ⟨hmem, hnot, hp⟩ => ⟨.inr hmem, hnot.2, hp⟩, fun ⟨hmem, hnot, hp⟩ => ?_⟩
        have hne : p ≠ path := fun h => hp (h ▸ hdest)
        exact ⟨hmem.resolve_left hne, ⟨hne, hnot⟩, hp⟩
      · rename_i hdest
        split
        · rename_i origin dest hlookup
          have hmem : dest ∈ renames.rows.map snd := mem_map_of_mem (lookup_eq_some_iff.1 hlookup).1
          rw [map_cons, mem_cons, ih, mem_cons, mem_cons, mem_cons]
          constructor
          · rintro (rfl | ⟨hrest, hnot, hp⟩)
            · exact ⟨.inl rfl, hhandled, hdest⟩
            · exact ⟨.inr hrest, fun h => hnot (.inr (.inr h)), hp⟩
          · rintro ⟨rfl | hrest, hnot, hp⟩
            · exact .inl rfl
            · by_cases hpath : p = path
              · exact .inl hpath
              · refine .inr ⟨hrest, ?_, hp⟩
                rintro (rfl | h | h)
                · exact hp hmem
                · exact hpath h
                · exact hnot h
        · rw [map_cons, mem_cons, ih, mem_cons, mem_cons]
          constructor
          · rintro (rfl | ⟨hrest, hnot, hp⟩)
            · exact ⟨.inl rfl, hhandled, hdest⟩
            · exact ⟨.inr hrest, fun h => hnot (.inr h), hp⟩
          · rintro ⟨rfl | hrest, hnot, hp⟩
            · exact .inl rfl
            · by_cases hpath : p = path
              · exact .inl hpath
              · refine .inr ⟨hrest, ?_, hp⟩
                rintro (h | h)
                · exact hpath h
                · exact hnot h

theorem nodup_left_pairEach : ((pairEach renames paths handled).map Prod.fst).Nodup := by
  induction paths generalizing handled with
  | nil => simp [pairEach]
  | cons path rest ih =>
    rw [pairEach]
    split
    · exact ih
    · split
      · exact ih
      · split
        · rw [map_cons, nodup_cons, mem_left_pairEach]
          exact ⟨fun h => h.2.1 (by simp), ih⟩
        · rw [map_cons, nodup_cons, mem_left_pairEach]
          exact ⟨fun h => h.2.1 (by simp), ih⟩

theorem right_of_mem_pairEach {pair : TrackedPath π × TrackedPath π}
    (h : pair ∈ pairEach renames paths handled) :
    (pair.1, pair.2) ∈ renames.rows ∨ (pair.2 = pair.1 ∧ renames.lookup pair.1 = none) := by
  induction paths generalizing handled with
  | nil => cases h
  | cons path rest ih =>
    rw [pairEach] at h
    split at h
    · exact ih h
    · split at h
      · exact ih h
      · split at h
        · rename_i origin dest hlookup
          rcases mem_cons.1 h with rfl | h
          · obtain rfl : origin = path := key_of_lookup hlookup
            exact .inl (lookup_eq_some_iff.1 hlookup).1
          · exact ih h
        · rename_i hlookup
          rcases mem_cons.1 h with rfl | h
          · exact .inr ⟨rfl, hlookup⟩
          · exact ih h

end Pairs

section Renames

variable {t : TurnDiffTracker π} {order : Iteration π} {host : DiffHost π}

theorem mem_renamePairs {o d : TrackedPath π} (h : (o, d) ∈ (t.renamePairs order).rows) :
    (d, o) ∈ t.originByCurrentPath.rows ∧ d ≠ o ∧ t.right o = none ∧ t.right d ≠ none ∧
      t.left o ≠ none ∧ t.left d = none := by
  rw [renamePairs, mem_foldl_insert] at h
  rcases h with ⟨before, after, hsplit, -⟩ | ⟨hmem, -⟩
  · have hmem : (o, d) ∈ before ++ (o, d) :: after := by simp
    rw [← hsplit, mem_filterMap] at hmem
    obtain ⟨⟨d', o'⟩, horigin, hsome⟩ := hmem
    rw [(order.origins_perm _).mem_iff] at horigin
    dsimp only at hsome
    split at hsome
    · cases hsome
    · rename_i hcond
      cases hsome
      simp only [contains_baseline, contains_current, Bool.or_eq_true, decide_eq_true_eq, not_or,
        Bool.not_eq_true', Bool.not_eq_true, isSome_eq_false_iff,
        isNone_iff_eq_none] at hcond
      obtain ⟨⟨⟨⟨hne, hright⟩, hright'⟩, hleft⟩, hleft'⟩ := hcond
      exact ⟨horigin, hne, hright, hright', hleft, hleft'⟩
  · cases hmem

theorem destutter_mem_iff {α : Type} [DecidableEq α] {l : List α} {a : α} :
    a ∈ l.destutter (· ≠ ·) ↔ a ∈ l := by
  have hmem (b : α) (l : List α) (h : a ∈ b :: l) : a ∈ l.destutter' (· ≠ ·) b := by
    induction l generalizing b with
    | nil => simpa using h
    | cons c l ih =>
      rw [destutter'_cons]
      split
      · rcases mem_cons.1 h with rfl | h
        · exact mem_cons_self
        · exact mem_cons_of_mem _ (ih c h)
      · rename_i hbc
        obtain rfl : b = c := not_not.1 hbc
        exact ih b (by simpa using h)
  refine ⟨fun h => (destutter_sublist _ l).subset h, fun h => ?_⟩
  cases l with
  | nil => cases h
  | cons b l => exact hmem b l h

theorem mem_sortedPaths {p : TrackedPath π} :
    p ∈ t.sortedPaths host order ↔ t.left p ≠ none ∨ t.right p ≠ none := by
  have hkeys {β : Type} (table : Table (fst : TrackedPath π × β → TrackedPath π)) :
      p ∈ order.paths (table.rows.map fst) ↔ contains table p = true := by
    rw [(order.paths_perm _).mem_iff, mem_keys_iff, contains]
  rw [sortedPaths, destutter_mem_iff, (perm_insertionSort _ _).mem_iff, mem_append, hkeys, hkeys,
    contains_baseline, contains_current, isSome_iff_ne_none, isSome_iff_ne_none]

end Renames

def mentions (pair : TrackedPath π × TrackedPath π) : List (TrackedPath π) :=
  if pair.1 = pair.2 then [pair.1] else [pair.1, pair.2]

theorem mem_mentions {pair : TrackedPath π × TrackedPath π} {p : TrackedPath π} :
    p ∈ mentions pair ↔ p = pair.1 ∨ p = pair.2 := by
  rw [mentions]
  split
  · rename_i h
    simp [h]
  · simp

section Mentions

variable {t : TurnDiffTracker π} {order : Iteration π} {host : DiffHost π}

theorem mem_mentions_diffPairs {p : TrackedPath π} :
    p ∈ (t.diffPairs host order).flatMap mentions ↔ t.left p ≠ none ∨ t.right p ≠ none := by
  rw [mem_flatMap]
  constructor
  · rintro ⟨pair, hpair, hp⟩
    have hleft : pair.1 ∈ (t.diffPairs host order).map fst := mem_map_of_mem hpair
    rw [diffPairs, mem_left_pairEach, mem_sortedPaths] at hleft
    rcases right_of_mem_pairEach hpair with hrename | ⟨hsame, -⟩
    · obtain ⟨-, -, -, hright, hleft', -⟩ := mem_renamePairs hrename
      rcases mem_mentions.1 hp with rfl | rfl
      · exact .inl hleft'
      · exact .inr hright
    · rcases mem_mentions.1 hp with rfl | rfl
      · exact hleft.1
      · rw [hsame]
        exact hleft.1
  · intro h
    -- a path that is the destination of a rename is on the right, any other on the left
    by_cases hdest : p ∈ (t.renamePairs order).rows.map snd
    · obtain ⟨⟨o, d⟩, hrow, rfl⟩ := mem_map.1 hdest
      obtain ⟨-, -, ho, -, hleft, -⟩ := mem_renamePairs hrow
      have hnot : o ∉ (t.renamePairs order).rows.map snd := by
        intro hmem
        obtain ⟨⟨o', d'⟩, hrow', rfl⟩ := mem_map.1 hmem
        obtain ⟨-, -, -, hd', -⟩ := mem_renamePairs hrow'
        exact hd' ho
      have hmem : o ∈ (t.diffPairs host order).map fst := by
        rw [diffPairs, mem_left_pairEach, mem_sortedPaths]
        exact ⟨.inl hleft, by simp, hnot⟩
      obtain ⟨pair, hpair, rfl⟩ := mem_map.1 hmem
      refine ⟨pair, hpair, mem_mentions.2 (.inr ?_)⟩
      have hlookup := lookup_eq_some_iff.2 ⟨hrow, rfl⟩
      rcases right_of_mem_pairEach hpair with hrename | ⟨-, hnone⟩
      · have hlookup' := lookup_eq_some_iff.2 ⟨hrename, rfl⟩
        rw [hlookup, some.injEq, Prod.mk.injEq] at hlookup'
        exact hlookup'.2
      · rw [hlookup] at hnone
        cases hnone
    · have hmem : p ∈ (t.diffPairs host order).map fst := by
        rw [diffPairs, mem_left_pairEach, mem_sortedPaths]
        exact ⟨h, by simp, hdest⟩
      obtain ⟨pair, hpair, rfl⟩ := mem_map.1 hmem
      exact ⟨pair, hpair, mem_mentions.2 (.inl rfl)⟩

theorem nodup_mentions_diffPairs : ((t.diffPairs host order).flatMap mentions).Nodup := by
  rw [nodup_flatMap]
  constructor
  · intro pair _
    rw [mentions]
    split
    · simp
    · rename_i h
      simpa using h
  · have hnodup : ((t.diffPairs host order).map fst).Nodup := nodup_left_pairEach
    rw [Nodup, pairwise_map] at hnodup
    refine hnodup.imp_of_mem fun {a b} ha hb hne => ?_
    have hleft {a : TrackedPath π × TrackedPath π} (ha : a ∈ t.diffPairs host order) :
        a.1 ∉ (t.renamePairs order).rows.map snd := by
      have hmem : a.1 ∈ (t.diffPairs host order).map fst := mem_map_of_mem ha
      rw [diffPairs, mem_left_pairEach] at hmem
      exact hmem.2.2
    -- the left of one pair is on the right of another only if it is a destination
    have hcross {a b : TrackedPath π × TrackedPath π} (ha : a ∈ t.diffPairs host order)
        (hb : b ∈ t.diffPairs host order) (hne : a.1 ≠ b.1) : a.1 ≠ b.2 := by
      intro h
      rcases right_of_mem_pairEach hb with hrename | ⟨hsame, -⟩
      · exact hleft ha (h ▸ mem_map_of_mem (f := snd) hrename)
      · exact hne (h.trans hsame)
    intro p hpa hpb
    rcases mem_mentions.1 hpa with rfl | rfl
    · rcases mem_mentions.1 hpb with h | h
      · exact hne h
      · exact hcross ha hb hne h
    · rcases mem_mentions.1 hpb with h | h
      · exact hcross hb ha hne.symm h.symm
      · rcases right_of_mem_pairEach ha with hra | ⟨hsame, -⟩
        · rcases right_of_mem_pairEach hb with hrb | ⟨hsame, -⟩
          · have hoa := lookup_eq_some_iff.2 ⟨(mem_renamePairs hra).1, rfl⟩
            have hob := lookup_eq_some_iff.2 ⟨(mem_renamePairs hrb).1, rfl⟩
            rw [h, hob, some.injEq, Prod.mk.injEq] at hoa
            exact hne hoa.2.symm
          · exact hcross hb ha hne.symm (hsame.symm.trans h.symm)
        · exact hcross ha hb hne (hsame.symm.trans h)

end Mentions

section Refresh

variable {t : TurnDiffTracker π} {host : DiffHost π} {log : List Text}

theorem textAt_leftRevision (h : Logged host log t) (p : TrackedPath π) :
    textAt log ((t.leftContent p).map (·.revision)) = t.left p := by
  rw [left]
  cases hc : t.leftContent p with
  | none => rfl
  | some c => exact h.left p c hc

theorem textAt_rightRevision (h : Logged host log t) (p : TrackedPath π) :
    textAt log ((t.rightContent p).map (·.revision)) = t.right p := by
  rw [right]
  cases hc : t.rightContent p with
  | none => rfl
  | some c => exact h.right p c hc

variable (pair : TrackedPath π × TrackedPath π)

theorem cached_cacheKey (h : Logged host log t) :
    Cached host log t (t.cacheKey pair, t.renderPair host pair) where
  left := by
    intro r hr
    obtain ⟨c, hc, rfl⟩ := map_eq_some_iff.1 hr
    exact (List.getElem?_eq_some_iff.1 (h.left _ c hc)).1
  right := by
    intro r hr
    obtain ⟨c, hc, rfl⟩ := map_eq_some_iff.1 hr
    exact (List.getElem?_eq_some_iff.1 (h.right _ c hc)).1
  rendered := by
    rw [cacheKey, textAt_leftRevision h, textAt_rightRevision h]
    rfl

/-- What a refresh has after some pairs, had it rendered all of them. -/
structure Fresh (host : DiffHost π) (log : List Text) (t : TurnDiffTracker π)
    (pairs : List (TrackedPath π × TrackedPath π)) (r : Refresh π) : Prop where
  previous : ∀ row ∈ r.previousDiffs.rows, Cached host log t row
  aggregated : r.aggregated =
    pairs.foldl (fun text pair => pushDiff text (t.renderPair host pair)) []
  rows : ∀ row ∈ r.renderedDiffs.rows, ∃ pair, row = (t.cacheKey pair, t.renderPair host pair)
  rendered : ∀ pair ∈ pairs, r.renderedDiffs.lookup (t.cacheKey pair) =
    some (t.cacheKey pair, t.renderPair host pair)

theorem cacheKey_injective (t : TurnDiffTracker π) : Function.Injective t.cacheKey := by
  intro a b h
  exact Prod.ext (congrArg DiffCacheKey.leftPath h) (congrArg DiffCacheKey.rightPath h)

section

variable (hlog : Logged host log t)
include hlog

theorem fresh_refreshPair {pairs : List (TrackedPath π × TrackedPath π)}
    {r : Refresh π} (h : Fresh host log t pairs r) :
    Fresh host log t (pairs ++ [pair]) (refreshPair host t r pair) := by
  have hrendered : ((r.previousDiffs.lookup (t.cacheKey pair)).map snd).getD
      (t.renderPair host pair) =
      t.renderPair host pair := by
    cases hlookup : r.previousDiffs.lookup (t.cacheKey pair) with
    | none => rfl
    | some row =>
      obtain ⟨hmem, hkey⟩ := lookup_eq_some_iff.1 hlookup
      change row.2 = t.renderPair host pair
      rw [(h.previous row hmem).rendered, hkey, cacheKey, textAt_leftRevision hlog,
        textAt_rightRevision hlog]
      rfl
  constructor
  · intro row hrow
    exact h.previous row (mem_of_mem_filter hrow)
  · rw [refreshPair, hrendered, h.aggregated, foldl_append]
    rfl
  · intro row hrow
    rw [refreshPair, hrendered] at hrow
    rcases mem_insert hrow with rfl | hrow
    · exact ⟨pair, rfl⟩
    · exact h.rows row hrow
  · intro other hother
    rw [refreshPair, hrendered, lookup_insert]
    split
    · rename_i hkey
      rw [cacheKey_injective t hkey]
    · rename_i hkey
      rcases mem_append.1 hother with hother | hother
      · exact h.rendered other hother
      · rw [mem_singleton.1 hother] at hkey
        exact absurd rfl hkey

theorem fresh_foldl (pairs : List (TrackedPath π × TrackedPath π)) :
    Fresh host log t pairs
      (pairs.foldl (refreshPair host t) { previousDiffs := t.renderedDiffs }) := by
  induction pairs using reverseRecOn with
  | nil => exact ⟨hlog.cached, rfl, (fun _ h => nomatch h), fun _ h => nomatch h⟩
  | append_singleton pairs pair ih =>
    rw [foldl_append]
    exact fresh_refreshPair pair hlog ih

theorem refresh_rendered (order : Iteration π) :
    (∀ pair ∈ (t.refreshUnifiedDiff host order).diffPairs host order,
      (t.refreshUnifiedDiff host order).renderedDiffs.lookup
        ((t.refreshUnifiedDiff host order).cacheKey pair) =
        some ((t.refreshUnifiedDiff host order).cacheKey pair,
          (t.refreshUnifiedDiff host order).renderPair host pair)) ∧
    (t.refreshUnifiedDiff host order).unifiedDiff =
      (some (((t.refreshUnifiedDiff host order).diffPairs host order).foldl (fun text pair =>
        pushDiff text ((t.refreshUnifiedDiff host order).renderPair host pair)) [])).filter
          (· ≠ []) := by
  have hfresh := fresh_foldl hlog (t.diffPairs host order)
  have hpair (pair : TrackedPath π × TrackedPath π) :
      (t.refreshUnifiedDiff host order).renderPair host pair = t.renderPair host pair := by
    rfl
  simp only [hpair]
  refine ⟨hfresh.rendered, ?_⟩
  have haggregated := hfresh.aggregated
  change (if _ = [] then none else some _) =
    Option.filter _ (some (foldl _ [] (t.diffPairs host order)))
  rw [haggregated, filter_some]
  split <;> rename_i h <;> simp [h]

end

end Refresh

end TurnDiffTracker

/-- A delta that is tracked, and the order of the maps then. -/
structure Step (π : Type) where
  order : Iteration π
  environmentId : Text
  delta : AppliedPatchDelta π

def Step.changes (step : Step π) : List (Text × AppliedPatchChange π) :=
  step.delta.changes.map (step.environmentId, ·)

def filesAfter (init : TrackedPath π → Option Text) (changes : List (Text × AppliedPatchChange π)) :
    TrackedPath π → Option Text :=
  changes.foldl (fun files c => replayIn c.1 c.2 files) init

def touchedBy (changes : List (Text × AppliedPatchChange π)) : List (TrackedPath π) :=
  changes.flatMap fun c => changedPaths c.1 c.2

/-- Each change says what was there just before it, and moves no file onto itself. -/
def TruthfulFrom (init : TrackedPath π → Option Text)
    (changes : List (Text × AppliedPatchChange π)) : Prop :=
  ∀ before c after, changes = before ++ c :: after →
    c.2.Recorded (within c.1 (filesAfter init before)) ∧ MovesAway c.2

theorem truthfulFrom_nil (init : TrackedPath π → Option Text) : TruthfulFrom init [] := by
  intro before c after h
  simp at h

theorem truthfulFrom_cons {init : TrackedPath π → Option Text} {c : Text × AppliedPatchChange π}
    {rest : List (Text × AppliedPatchChange π)} (hrecorded : c.2.Recorded (within c.1 init))
    (hmoves : MovesAway c.2) (hrest : TruthfulFrom (replayIn c.1 c.2 init) rest) :
    TruthfulFrom init (c :: rest) := by
  intro before c' after h
  cases before with
  | nil =>
    obtain ⟨rfl, rfl⟩ := cons.inj h
    exact ⟨hrecorded, hmoves⟩
  | cons b before =>
    obtain ⟨rfl, htail⟩ := cons.inj h
    exact hrest before c' after htail

def runTurn (host : DiffHost π) (roots : List (Text × π)) (steps : List (Step π)) :
    TurnDiffTracker π :=
  steps.foldl (fun t step => t.trackDelta host step.order step.environmentId step.delta)
    (.withEnvironmentDisplayRoots roots)

theorem runTurn_append (host : DiffHost π) (roots : List (Text × π)) {steps : List (Step π)}
    {last : Step π}
    (hvalid : (runTurn host roots steps).valid = true) (hexact : last.delta.exact = true) :
    runTurn host roots (steps ++ [last]) =
      TurnDiffTracker.refreshUnifiedDiff host (last.delta.changes.foldl
      (fun t change => t.applyChange last.environmentId change)
        (runTurn host roots steps)) last.order := by
  rw [runTurn, foldl_append, foldl_cons, ← runTurn, TurnDiffTracker.trackDelta, hvalid, hexact]
  rfl

section Turns

variable {host : DiffHost π} {init : TrackedPath π → Option Text} {t : TurnDiffTracker π}

/-- The tracker after some changes. -/
structure Tracked (host : DiffHost π) (init : TrackedPath π → Option Text)
    (changes : List (Text × AppliedPatchChange π)) (t : TurnDiffTracker π) : Prop where
  valid : t.valid = true
  shows : ∀ p, t.Shows init (filesAfter init changes) (touchedBy changes) p
  logged : ∃ log, TurnDiffTracker.Logged host log t

open TurnDiffTracker

theorem valid_applyChange (environmentId : Text) (c : AppliedPatchChange π) :
    (t.applyChange environmentId c).valid = t.valid := by
  have hkeep (t : TurnDiffTracker π) (p : TrackedPath π) (content : Option Text) :
      (t.keepBaseline p content).valid = t.valid := by
    cases content with
    | none => rfl
    | some content =>
      rw [keepBaseline]
      split <;> rfl
  obtain ⟨path, change⟩ := c
  cases change with
  | add | delete => exact hkeep _ _ _
  | update movePath old overwritten new =>
    cases movePath with
    | none => exact hkeep _ _ _
    | some dest => exact (hkeep _ _ _).trans (hkeep _ _ _)

variable {changes : List (Text × AppliedPatchChange π)} (h : Tracked host init changes t)

include h in
theorem tracked_applyChange
    {c : Text × AppliedPatchChange π}
    (hrecorded : c.2.Recorded (within c.1 (filesAfter init changes)))
    (hmoves : MovesAway c.2) : Tracked host init (changes ++ [c]) (t.applyChange c.1 c.2) where
  valid := by rw [valid_applyChange, h.valid]
  shows := by
    intro p
    have hshows := shows_applyChange h.shows hrecorded hmoves p
    rwa [filesAfter, foldl_append, touchedBy, flatMap_append, flatMap_singleton]
  logged := by
    obtain ⟨log, hlog⟩ := h.logged
    exact logged_applyChange hlog c.1 c.2

theorem tracked_changes {before : List (Text × AppliedPatchChange π)}
    (h : Tracked host init before t) (environmentId : Text) {changes : List (AppliedPatchChange π)}
    (htruth : TruthfulFrom init (before ++ changes.map (environmentId, ·))) :
    Tracked host init (before ++ changes.map (environmentId, ·))
      (changes.foldl (fun t change => t.applyChange environmentId change) t) := by
  induction changes generalizing before t with
  | nil => simpa using h
  | cons c rest ih =>
    obtain ⟨hrecorded, hmoves⟩ := htruth before (environmentId, c) (rest.map (environmentId, ·)) rfl
    have hone := tracked_applyChange h hrecorded hmoves
    have happend : before ++ (c :: rest).map (environmentId, ·) =
        before ++ [(environmentId, c)] ++ rest.map (environmentId, ·) := by simp
    rw [happend] at htruth ⊢
    exact ih hone htruth

theorem TruthfulFrom.initial {a b : List (Text × AppliedPatchChange π)}
    (h : TruthfulFrom init (a ++ b)) :
    TruthfulFrom init a := by
  rintro before c after rfl
  exact h before c (after ++ b) (by simp)

include h in
theorem Tracked.refresh
    (order : Iteration π) : Tracked host init changes (t.refreshUnifiedDiff host order) where
  valid := h.valid
  shows := h.shows
  logged := by
    obtain ⟨log, hlog⟩ := h.logged
    refine ⟨log, hlog.next, hlog.left, hlog.right, fun row hrow => ?_⟩
    obtain ⟨pair, rfl⟩ := (fresh_foldl hlog (t.diffPairs host order)).rows row hrow
    exact (cached_cacheKey pair hlog).congr rfl

theorem tracked_turn (roots : List (Text × π)) {steps : List (Step π)}
    (hexact : ∀ s ∈ steps, s.delta.exact = true)
    (htruth : TruthfulFrom init (steps.flatMap Step.changes)) :
    Tracked host init (steps.flatMap Step.changes) (runTurn host roots steps) := by
  induction steps using reverseRecOn with
  | nil => exact ⟨rfl, fun _ => ⟨rfl, rfl, rfl⟩, [], rfl, nofun, nofun, nofun⟩
  | append_singleton steps s ih =>
    rw [flatMap_append, flatMap_singleton] at htruth ⊢
    have hbefore := ih (fun s hs => hexact s (mem_append_left _ hs)) htruth.initial
    rw [runTurn_append host roots hbefore.valid (hexact s (by simp))]
    exact (tracked_changes hbefore s.environmentId htruth).refresh s.order

end Turns

open TurnDiffTracker

/-- The files after a pair is applied: the left path is gone and the right one holds its
content. -/
def applyPair (t : TurnDiffTracker π) (files : TrackedPath π → Option Text)
    (pair : TrackedPath π × TrackedPath π) : TrackedPath π → Option Text :=
  Function.update (Function.update files pair.1 none) pair.2 (t.right pair.2)

section Result

variable {host : DiffHost π} {init now : TrackedPath π → Option Text}
  {touched : List (TrackedPath π)}
  {t : TurnDiffTracker π} {order : Iteration π}

theorem foldl_applyPair {pairs : List (TrackedPath π × TrackedPath π)}
    (h : ∀ pair ∈ pairs, t.right pair.2 = now pair.2 ∧ (pair.1 ≠ pair.2 → now pair.1 = none))
    (q : TrackedPath π) :
    pairs.foldl (applyPair t) init q = if q ∈ pairs.flatMap mentions then now q else init q := by
  induction pairs using reverseRecOn with
  | nil => simp
  | append_singleton pairs pair ih =>
    obtain ⟨hright, hleft⟩ := h pair (by simp)
    have hbefore := ih fun pair hpair => h pair (mem_append_left _ hpair)
    rw [foldl_append, foldl_cons, foldl_nil, applyPair, flatMap_append, flatMap_singleton]
    by_cases hq₂ : q = pair.2
    · subst hq₂
      simp [mem_mentions, hright]
    · rw [Function.update_of_ne hq₂]
      by_cases hq₁ : q = pair.1
      · subst hq₁
        simp [mem_mentions, hleft hq₂]
      · rw [Function.update_of_ne hq₁, hbefore]
        have hmem : q ∈ pairs.flatMap mentions ++ mentions pair ↔ q ∈ pairs.flatMap mentions := by
          rw [mem_append, mem_mentions]
          simp [hq₁, hq₂]
        simp only [hmem]

variable {p : TrackedPath π}

theorem shows_contents (h : t.Shows init now touched p)
    (hp : t.left p ≠ none ∨ t.right p ≠ none) :
    p ∈ touched ∧ t.left p = init p ∧ t.right p = now p := by
  rw [Shows] at h
  split at h
  · rename_i hmem
    exact ⟨hmem, h⟩
  · rcases hp with hp | hp
    · exact absurd h.1 hp
    · exact absurd h.2.1 hp

theorem shows_mentioned_iff (h : t.Shows init now touched p) :
    (t.left p ≠ none ∨ t.right p ≠ none) ↔ p ∈ touched ∧ (init p ≠ none ∨ now p ≠ none) := by
  constructor
  · intro hp
    obtain ⟨hmem, hleft, hright⟩ := shows_contents h hp
    rw [← hleft, ← hright]
    exact ⟨hmem, hp⟩
  · rintro ⟨hmem, hp⟩
    rw [Shows, if_pos hmem] at h
    rw [h.1, h.2]
    exact hp

theorem shows_unmentioned (h : t.Shows init now touched p)
    (hp : ¬ (t.left p ≠ none ∨ t.right p ≠ none)) : init p = now p := by
  rw [not_or, not_not, not_not] at hp
  rw [Shows] at h
  split at h
  · rw [← h.1, ← h.2, hp.1, hp.2]
  · exact h.2.2.symm

theorem pair_contents (h : ∀ p, t.Shows init now touched p) {pair : TrackedPath π × TrackedPath π}
    (hpair : pair ∈ t.diffPairs host order) :
    t.left pair.1 = init pair.1 ∧ t.right pair.2 = now pair.2 ∧
      (pair.1 ≠ pair.2 → now pair.1 = none) := by
  have hmentioned {p : TrackedPath π} (hp : p ∈ mentions pair) :
      p ∈ touched ∧ t.left p = init p ∧ t.right p = now p :=
    shows_contents (h p) (mem_mentions_diffPairs.1 (mem_flatMap.2 ⟨pair, hpair, hp⟩))
  obtain ⟨-, hleft, hgone⟩ := hmentioned (mem_mentions.2 (.inl rfl))
  obtain ⟨-, -, hright⟩ := hmentioned (mem_mentions.2 (.inr rfl))
  refine ⟨hleft, hright, fun hne => ?_⟩
  rcases right_of_mem_pairEach hpair with hrename | ⟨hsame, -⟩
  · rw [← hgone]
    exact (mem_renamePairs hrename).2.2.1
  · exact absurd hsame.symm hne

end Result

variable (host : DiffHost π) (roots : List (Text × π))

/-- The pairs of a refresh are the net difference: each path that was touched, and is there at
the start or now, is mentioned once, with its content at the start on the left and its content
now on the right. The pairs lead from the files at the start to the files now, and what is
cached is what would be rendered. -/
theorem turn_diff_net {init : TrackedPath π → Option Text} {steps : List (Step π)} {last : Step π}
    (hexact : ∀ s ∈ steps ++ [last], s.delta.exact = true)
    (htruth : TruthfulFrom init ((steps ++ [last]).flatMap Step.changes)) :
    let t := runTurn host roots (steps ++ [last])
    let changes := (steps ++ [last]).flatMap Step.changes
    let now := filesAfter init changes
    let pairs := t.diffPairs host last.order
    (pairs.flatMap mentions).Nodup ∧
    (∀ p, p ∈ pairs.flatMap mentions ↔ p ∈ touchedBy changes ∧ (init p ≠ none ∨ now p ≠ none)) ∧
    (∀ pair ∈ pairs, t.left pair.1 = init pair.1 ∧ t.right pair.2 = now pair.2) ∧
    pairs.foldl (applyPair t) init = now ∧
    (∀ pair ∈ pairs, t.renderedDiffs.lookup (t.cacheKey pair) =
      some (t.cacheKey pair, t.renderPair host pair)) ∧
    t.unifiedDiff =
      (some (pairs.foldl (fun text pair => pushDiff text (t.renderPair host pair)) [])).filter
      (· ≠ []) := by
  intro t changes now pairs
  have htracked : Tracked host init changes t := tracked_turn roots hexact htruth
  have hcontents {pair : TrackedPath π × TrackedPath π} (hpair : pair ∈ pairs) :=
    pair_contents htracked.shows hpair
  refine ⟨nodup_mentions_diffPairs, fun p => ?_, fun pair hpair => ?_, ?_, ?_⟩
  · exact mem_mentions_diffPairs.trans (shows_mentioned_iff (htracked.shows p))
  · exact ⟨(hcontents hpair).1, (hcontents hpair).2.1⟩
  · funext q
    rw [foldl_applyPair fun pair hpair => (hcontents hpair).2]
    split
    · rfl
    · rename_i hq
      exact shows_unmentioned (htracked.shows q) fun h => hq (mem_mentions_diffPairs.2 h)
  · rw [flatMap_append, flatMap_singleton] at htruth
    have hbefore : Tracked host init (steps.flatMap Step.changes) (runTurn host roots steps) :=
      tracked_turn roots (fun s hs => hexact s (mem_append_left _ hs)) htruth.initial
    have hrun := runTurn_append host roots hbefore.valid (hexact last (by simp))
    obtain ⟨log, hlog⟩ := (tracked_changes hbefore last.environmentId htruth).logged
    have hrendered := refresh_rendered hlog last.order
    rw [← hrun] at hrendered
    exact hrendered

section Examples

/-- Paths that are numbers. -/
def plainHost : DiffHost ℕ where
  relativePathFrom := fun _ _ => none
  inferredNativePathString := fun n => List.replicate n 'p'
  gitBlobOid := id
  unifiedDiff := fun old new _ _ => old ++ new

def inOrder : Iteration ℕ := ⟨id, id, fun _ => .rfl, fun _ => .rfl⟩

def moving : Step ℕ := ⟨inOrder, [], ⟨[⟨1, .update (some 2) ['x'] none ['y']⟩], true⟩⟩

def oneFile : TrackedPath ℕ → Option Text := fun p => if p = ⟨[], 1⟩ then some ['x'] else none

theorem turn_diff_net_moving :
    (runTurn plainHost [] [moving]).diffPairs plainHost inOrder = [(⟨[], 1⟩, ⟨[], 2⟩)] ∧
    ((runTurn plainHost [] [moving]).diffPairs plainHost inOrder).foldl
      (applyPair (runTurn plainHost [] [moving])) oneFile = filesAfter oneFile moving.changes := by
  have hexact : ∀ s ∈ [] ++ [moving], s.delta.exact = true := by decide
  have htruth : TruthfulFrom oneFile (([] ++ [moving]).flatMap Step.changes) :=
    truthfulFrom_cons ⟨rfl, rfl⟩ (fun _ _ _ h => by cases h) (truthfulFrom_nil _)
  exact ⟨by decide, (turn_diff_net plainHost [] hexact htruth).2.2.2.1⟩

def passing : List (Step ℕ) :=
  [⟨inOrder, [], ⟨[⟨1, .add ['x'] none⟩], true⟩⟩, ⟨inOrder, [], ⟨[⟨1, .delete ['x']⟩], true⟩⟩]

/-- A file that was not there and is not there now is touched and not mentioned. -/
theorem passing_file_unmentioned :
    (∀ s ∈ passing, s.delta.exact = true) ∧
    TruthfulFrom (fun _ => none) (passing.flatMap Step.changes) ∧
    (⟨[], 1⟩ : TrackedPath ℕ) ∈ touchedBy (passing.flatMap Step.changes) ∧
    (⟨[], 1⟩ : TrackedPath ℕ) ∉
      ((runTurn plainHost [] passing).diffPairs plainHost inOrder).flatMap mentions := by
  refine ⟨by decide, ?_, by decide, by decide⟩
  refine truthfulFrom_cons rfl (fun _ _ _ h => by cases h) ?_
  exact truthfulFrom_cons rfl (fun _ _ _ h => by cases h) (truthfulFrom_nil _)

end Examples

end OmniDoer.TurnDiff
