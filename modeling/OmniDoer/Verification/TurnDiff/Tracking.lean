import OmniDoer.Model.TurnDiff
import OmniDoer.Verification.ApplyPatch.Delta

/-! # What the tracker knows

For each touched path the tracker has what the path held at the start of the turn and what it
holds now. A revision stands for one content, so what was rendered for some revisions can be
shown again. -/

namespace OmniDoer.TurnDiff

open Rust Tables ApplyPatch Function

variable {π : Type} [DecidableEq π]

section Files

def within (environmentId : Text) (files : TrackedPath π → Option Text) : π → Option Text :=
  fun path => files ⟨environmentId, path⟩

def replayIn (environmentId : Text) (c : AppliedPatchChange π)
    (files : TrackedPath π → Option Text) :
    TrackedPath π → Option Text := fun p =>
  if p.environmentId = environmentId then c.replay (within environmentId files) p.path else files p

def changedPaths (environmentId : Text) (c : AppliedPatchChange π) : List (TrackedPath π) :=
  match c.change with
  | .update (some dest) .. => [⟨environmentId, c.path⟩, ⟨environmentId, dest⟩]
  | _ => [⟨environmentId, c.path⟩]

def MovesAway (c : AppliedPatchChange π) : Prop :=
  ∀ old overwritten new, c.change ≠ .update (some c.path) old overwritten new

variable {environmentId : Text} {files : TrackedPath π → Option Text}

variable (value : Option Text)

theorem within_update (path : π) (p : TrackedPath π) (hp : p.environmentId = environmentId) :
    Function.update (within environmentId files) path value p.path =
      Function.update files ⟨environmentId, path⟩ value p := by
  obtain ⟨environmentId', q⟩ := p
  obtain rfl : environmentId' = environmentId := hp
  by_cases hq : q = path
  · simp [hq]
  · simp [hq, within]

theorem update_other (path : π) {p : TrackedPath π} (hp : p.environmentId ≠ environmentId) :
    Function.update files ⟨environmentId, path⟩ value p = files p :=
  update_of_ne (fun h => hp (congrArg TrackedPath.environmentId h)) _ _

theorem replayIn_single {c : AppliedPatchChange π} {path : π} {value : Option Text}
    (h : c.replay (within environmentId files) =
      Function.update (within environmentId files) path value) :
    replayIn environmentId c files = Function.update files ⟨environmentId, path⟩ value := by
  funext p
  rw [replayIn]
  split
  · rename_i hp
    rw [h, within_update value path p hp]
  · rename_i hp
    rw [update_other value path hp]

theorem within_function_update (path : π) :
    within environmentId (Function.update files ⟨environmentId, path⟩ value) =
      Function.update (within environmentId files) path value :=
  funext fun q => (within_update value path ⟨environmentId, q⟩ rfl).symm

theorem replayIn_move {path dest : π} {old new : Text} {overwritten : Option Text} :
    replayIn environmentId ⟨path, .update (some dest) old overwritten new⟩ files =
      Function.update (Function.update files ⟨environmentId, dest⟩ (some new)) ⟨environmentId,
        path⟩ none := by
  funext p
  rw [replayIn]
  split
  · rename_i hp
    change update (update (within environmentId files) dest (some new)) path none p.path = _
    rw [← within_function_update, within_update none path p hp]
  · rename_i hp
    rw [update_other none path hp, update_other _ dest hp]

end Files

namespace TurnDiffTracker

section Contents

/-- What the tracker has for a path at the start of the turn. -/
def left (t : TurnDiffTracker π) (p : TrackedPath π) : Option Text :=
  (t.leftContent p).map (·.content)

def right (t : TurnDiffTracker π) (p : TrackedPath π) : Option Text :=
  (t.rightContent p).map (·.content)

theorem contains_baseline (t : TurnDiffTracker π) (p : TrackedPath π) :
    contains t.baselineByPath p = (t.left p).isSome := by
  simp [contains, left, leftContent]

theorem contains_current (t : TurnDiffTracker π) (p : TrackedPath π) :
    contains t.currentByPath p = (t.right p).isSome := by
  simp [contains, right, rightContent]

variable {t : TurnDiffTracker π}

theorem right_setCurrent (path : TrackedPath π) (content : Text) :
    (t.setCurrent path content).right = Function.update t.right path (some content) := by
  funext q
  rw [right, rightContent, setCurrent]
  by_cases hq : q = path
  · simp [trackedContent, hq]
  · simp [trackedContent, Table.lookup_insert, hq, right, rightContent]

@[simp] theorem right_keepBaseline (path : TrackedPath π) (content : Option Text) :
    (t.keepBaseline path content).right = t.right := by
  cases content with
  | none => rfl
  | some content =>
    rw [keepBaseline]
    split <;> rfl

variable {init now : TrackedPath π → Option Text} {touched : List (TrackedPath π)}
  {p : TrackedPath π}

/-- The tracker shows both contents of a touched path, and none of another. -/
def Shows (init now : TrackedPath π → Option Text) (touched : List (TrackedPath π))
    (t : TurnDiffTracker π)
    (p : TrackedPath π) : Prop :=
  if p ∈ touched then t.left p = init p ∧ t.right p = now p
  else t.left p = none ∧ t.right p = none ∧ now p = init p

theorem left_keepBaseline (h : t.Shows init now touched p) :
    (t.keepBaseline p (now p)).left = Function.update t.left p (init p) := by
  have hsame (hleft : t.left p = init p) : t.left = update t.left p (init p) := by
    rw [← hleft, update_eq_self]
  rw [Shows] at h
  cases hnow : now p with
  | none =>
    refine hsame ?_
    split at h
    · exact h.1
    · rw [h.1, ← h.2.2, hnow]
  | some content =>
    rw [keepBaseline, contains_current, contains_baseline]
    split at h
    · rw [h.2, hnow]
      exact hsame h.1
    · rw [h.1, h.2.1, ← h.2.2, hnow]
      funext q
      by_cases hq : q = p
      · simp [left, leftContent, trackedContent, hq]
      · simp [left, leftContent, trackedContent, Table.lookup_insert, hq]

theorem Shows.congr {t' : TurnDiffTracker π} {now' : TrackedPath π → Option Text}
    {touched' : List (TrackedPath π)} (h : t.Shows init now touched p)
    (hleft : t'.left p = t.left p) (hright : t'.right p = t.right p) (hnow : now' p = now p)
    (htouched : p ∈ touched' ↔ p ∈ touched) :
    t'.Shows init now' touched' p := by
  rw [Shows] at h ⊢
  rw [hleft, hright, hnow]
  simpa only [htouched] using h

theorem shows_of_mem {t' : TurnDiffTracker π} {touched' : List (TrackedPath π)}
    (hmem : p ∈ touched')
    (hleft : t'.left p = init p) (hright : t'.right p = now p) : t'.Shows init now touched' p := by
  rw [Shows, if_pos hmem]
  exact ⟨hleft, hright⟩

end Contents

section Changes

variable {t : TurnDiffTracker π} {init now : TrackedPath π → Option Text}
  {touched : List (TrackedPath π)}

variable {path : TrackedPath π}

theorem shows_single {t' : TurnDiffTracker π} {value : Option Text}
    (h : ∀ p, t.Shows init now touched p)
    (hleft : t'.left = Function.update t.left path (init path))
    (hright : t'.right = Function.update t.right path value) (p : TrackedPath π) :
    t'.Shows init (Function.update now path value) (touched ++ [path]) p := by
  by_cases hp : p = path
  · subst hp
    exact shows_of_mem (by simp) (by simp [hleft]) (by simp [hright])
  · exact (h p).congr (by simp [hleft, hp]) (by simp [hright, hp]) (by simp [hp]) (by simp [hp])

theorem right_remove (t : TurnDiffTracker π) (path : TrackedPath π) (origins : PathMap π) :
    ({ t with
        currentByPath := t.currentByPath.remove path
        originByCurrentPath := origins } : TurnDiffTracker π).right =
          Function.update t.right path none := by
  funext q
  by_cases hq : q = path <;> simp [right, rightContent, Table.lookup_remove, hq]

section

variable (h : ∀ p, t.Shows init now touched p)
include h

theorem shows_applyMove {path dest : TrackedPath π} (hne : dest ≠ path)
    {old : Text} (hold : some old = now path) (new : Text) (p : TrackedPath π) :
    (t.applyUpdate path (some dest) old (now dest) new).Shows init
      (Function.update (Function.update now dest (some new)) path none)
        (touched ++ [path, dest]) p := by
  have hleft := left_keepBaseline (h path)
  rw [← hold] at hleft
  have hdest : (t.keepBaseline path (some old)).Shows init now touched dest :=
    (h dest).congr (by simp [hleft, hne]) (by simp) rfl .rfl
  have hleft' : (t.applyUpdate path (some dest) old (now dest) new).left =
      update (update t.left path (init path)) dest (init dest) := by
    rw [← hleft, ← left_keepBaseline hdest]
    rfl
  have hright' : (t.applyUpdate path (some dest) old (now dest) new).right =
      update (update t.right path none) dest (some new) := by
    have hright := right_remove ((t.keepBaseline path (some old)).keepBaseline dest (now dest)) path
      (((t.keepBaseline path (some old)).keepBaseline dest
        (now dest)).originByCurrentPath.remove path)
    rw [right_keepBaseline, right_keepBaseline] at hright
    rw [← hright, ← right_setCurrent]
    rfl
  by_cases hp : p = path
  · subst hp
    exact shows_of_mem (by simp) (by simp [hleft', hne.symm]) (by simp [hright', hne.symm])
  · by_cases hpd : p = dest
    · subst hpd
      exact shows_of_mem (by simp) (by simp [hleft']) (by simp [hright', hne])
    · exact (h p).congr (by simp [hleft', hp, hpd]) (by simp [hright', hp, hpd]) (by simp [hp, hpd])
        (by simp [hp, hpd])

theorem shows_applyChange {environmentId : Text}
    {c : AppliedPatchChange π} (hrecorded : c.Recorded (within environmentId now))
    (hmoves : MovesAway c) (p : TrackedPath π) :
    (t.applyChange environmentId c).Shows init (replayIn environmentId c now)
      (touched ++ changedPaths environmentId c) p := by
  obtain ⟨path, change⟩ := c
  cases change with
  | add content overwritten =>
    have hoverwritten : overwritten = now ⟨environmentId, path⟩ := hrecorded
    rw [replayIn_single rfl, hoverwritten]
    refine shows_single h ?_ ?_ p
    · exact left_keepBaseline
        (t := { t with originByCurrentPath := t.originByCurrentPath.remove _ }) (h _)
    · change (t.applyAdd _ content _).right = _
      rw [applyAdd, right_setCurrent, right_keepBaseline]
      rfl
  | delete content =>
    rw [replayIn_single rfl]
    refine shows_single h ?_ ?_ p
    · have hleft := left_keepBaseline (h ⟨environmentId, path⟩)
      rw [← show some content = now ⟨environmentId, path⟩ from hrecorded] at hleft
      exact hleft
    · change (t.applyDelete _ content).right = _
      rw [applyDelete, right_remove, right_keepBaseline]
  | update movePath old overwritten new =>
    cases movePath with
    | none =>
      rw [replayIn_single rfl]
      refine shows_single h ?_ ?_ p
      · have hleft := left_keepBaseline (h ⟨environmentId, path⟩)
        rw [← show some old = now ⟨environmentId, path⟩ from hrecorded] at hleft
        exact hleft
      · change ((t.keepBaseline _ (some old)).setCurrent _ new).right = _
        rw [right_setCurrent, right_keepBaseline]
    | some dest =>
      obtain ⟨hold, hoverwritten⟩ := hrecorded
      have hne : (⟨environmentId, dest⟩ : TrackedPath π) ≠ ⟨environmentId, path⟩ := by
        intro hsame
        cases hsame
        exact hmoves _ _ _ rfl
      have hoverwritten' : overwritten = now ⟨environmentId, dest⟩ := hoverwritten
      rw [replayIn_move, hoverwritten']
      exact shows_applyMove h hne hold new p

end

end Changes

section Revisions

variable {host : DiffHost π} {t : TurnDiffTracker π} {log : List Text}

def textAt (log : List Text) (revision : Option ℕ) : Option Text := revision.bind (log[·]?)

theorem textAt_append {revision : Option ℕ} (h : ∀ r ∈ revision, r < log.length)
    (later : List Text) :
    textAt (log ++ later) revision = textAt log revision := by
  cases revision with
  | none => rfl
  | some r => exact List.getElem?_append_left (h r rfl)

/-- A rendering is that of the contents of its revisions. -/
structure Cached (host : DiffHost π) (log : List Text) (t : TurnDiffTracker π)
    (row : DiffCacheKey π × Option Text) : Prop where
  left : ∀ r ∈ row.1.leftRevision, r < log.length
  right : ∀ r ∈ row.1.rightRevision, r < log.length
  rendered : row.2 = t.renderDiff host row.1.leftPath
    (textAt log row.1.leftRevision) row.1.rightPath
    (textAt log row.1.rightRevision)

/-- Every revision stands for one content. -/
structure Logged (host : DiffHost π) (log : List Text) (t : TurnDiffTracker π) : Prop where
  next : t.nextRevision = log.length
  left : ∀ p c, t.leftContent p = some c → log[c.revision]? = some c.content
  right : ∀ p c, t.rightContent p = some c → log[c.revision]? = some c.content
  cached : ∀ row ∈ t.renderedDiffs.rows, Cached host log t row

variable {t' : TurnDiffTracker π}

theorem renderDiff_congr
    (hroots : t'.displayRootsByEnvironment = t.displayRootsByEnvironment) :
    t'.renderDiff host = t.renderDiff host := by
  have hdisplay (p : TrackedPath π) : t'.displayPath host p = t.displayPath host p := by
    rw [displayPath, displayPath, hroots]
  funext leftPath left rightPath right
  rw [renderDiff, renderDiff, hdisplay, hdisplay]

theorem Cached.append {row : DiffCacheKey π × Option Text} (h : Cached host log t row)
    (later : List Text) (hroots : t'.displayRootsByEnvironment = t.displayRootsByEnvironment) :
    Cached host (log ++ later) t' row where
  left := fun r hr => by
    have hlt := h.left r hr
    rw [List.length_append]
    omega
  right := fun r hr => by
    have hlt := h.right r hr
    rw [List.length_append]
    omega
  rendered := by
    rw [textAt_append h.left, textAt_append h.right, h.rendered, renderDiff_congr hroots]

theorem Cached.congr {row : DiffCacheKey π × Option Text} (h : Cached host log t row)
    (hroots : t'.displayRootsByEnvironment = t.displayRootsByEnvironment) :
    Cached host log t' row :=
  ⟨h.left, h.right, by rw [h.rendered, renderDiff_congr hroots]⟩

theorem getElem?_log_append {content : Text} {c : TrackedContent}
    (h : log[c.revision]? = some c.content ∨ c = ⟨content, log.length⟩) :
    (log ++ [content])[c.revision]? = some c.content := by
  rcases h with h | rfl
  · have hlt : c.revision < log.length := by
      by_contra hge
      rw [List.getElem?_eq_none (Nat.le_of_not_lt hge)] at h
      cases h
    rw [List.getElem?_append_left hlt]
    exact h
  · simp

section

variable (h : Logged host log t)
include h

theorem logged_keepBaseline (path : TrackedPath π) (content : Option Text) :
    ∃ later, Logged host (log ++ later) (t.keepBaseline path content) := by
  have hsame : ∃ later, Logged host (log ++ later) t := ⟨[], by rwa [List.append_nil]⟩
  cases content with
  | none => exact hsame
  | some content =>
    rw [keepBaseline]
    split
    · refine ⟨[content], ?_, ?_, ?_, ?_⟩
      · simp [trackedContent, h.next]
      · intro p c hc
        obtain ⟨row, hrow, rfl⟩ := Option.map_eq_some_iff.1 hc
        simp only [trackedContent, Table.lookup_insert] at hrow
        split at hrow
        · cases hrow
          exact getElem?_log_append (.inr (by rw [h.next]))
        · exact getElem?_log_append (.inl (h.left p row.2 (by rw [leftContent, hrow]; rfl)))
      · exact fun p c hc => getElem?_log_append (.inl (h.right p c hc))
      · exact fun row hrow => (h.cached row hrow).append _ rfl
    · exact hsame

theorem logged_setCurrent (path : TrackedPath π) (content : Text) :
    Logged host (log ++ [content]) (t.setCurrent path content) where
  next := by simp [setCurrent, trackedContent, h.next]
  left := fun p c hc => getElem?_log_append (.inl (h.left p c hc))
  right := by
    intro p c hc
    obtain ⟨row, hrow, rfl⟩ := Option.map_eq_some_iff.1 hc
    simp only [setCurrent, trackedContent, Table.lookup_insert] at hrow
    split at hrow
    · cases hrow
      exact getElem?_log_append (.inr (by rw [h.next]))
    · exact getElem?_log_append (.inl (h.right p row.2 (by rw [rightContent, hrow]; rfl)))
  cached := fun row hrow => (h.cached row hrow).append _ rfl

theorem logged_remove (path : TrackedPath π) (origins : PathMap π) :
    Logged host log { t with
      currentByPath := t.currentByPath.remove path
      originByCurrentPath := origins } where
  next := h.next
  left := h.left
  right := by
    intro p c hc
    rw [rightContent, Table.lookup_remove] at hc
    split at hc
    · cases hc
    · exact h.right p c hc
  cached := fun row hrow => (h.cached row hrow).congr rfl

theorem logged_origins (origins : PathMap π) :
    Logged host log { t with originByCurrentPath := origins } :=
  ⟨h.next, h.left, h.right, fun row hrow => (h.cached row hrow).congr rfl⟩

theorem logged_applyChange (environmentId : Text) (c : AppliedPatchChange π) :
    ∃ log', Logged host log' (t.applyChange environmentId c) := by
  obtain ⟨path, change⟩ := c
  cases change with
  | add content overwritten =>
    obtain ⟨later, hkept⟩ := logged_keepBaseline (logged_origins h
      (t.originByCurrentPath.remove ⟨environmentId, path⟩)) ⟨environmentId, path⟩ overwritten
    exact ⟨_, logged_setCurrent hkept _ content⟩
  | delete content =>
    obtain ⟨later, hkept⟩ := logged_keepBaseline h ⟨environmentId, path⟩ (some content)
    exact ⟨_, logged_remove hkept _ _⟩
  | update movePath old overwritten new =>
    obtain ⟨later, hkept⟩ := logged_keepBaseline h ⟨environmentId, path⟩ (some old)
    cases movePath with
    | none => exact ⟨_, logged_setCurrent hkept _ new⟩
    | some dest =>
      obtain ⟨later', hkept'⟩ := logged_keepBaseline hkept ⟨environmentId, dest⟩ overwritten
      exact ⟨_, logged_origins (logged_setCurrent (logged_remove hkept' _ _) _ new) _⟩

end

end Revisions

end TurnDiffTracker

end OmniDoer.TurnDiff
