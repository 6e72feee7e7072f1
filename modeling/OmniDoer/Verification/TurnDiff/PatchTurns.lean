import OmniDoer.Verification.TurnDiff.NetDiff

/-! # The patches of a turn

The tracker shows what calls of the patch tool have done to the files of each environment. -/

namespace OmniDoer.TurnDiff

open Rust ApplyPatch List TurnDiffTracker Function

variable {π : Type} [DecidableEq π]

/-- A call of the patch tool, and the order of the maps when its record is tracked. -/
structure PatchRun (π : Type) where
  environmentId : Text
  cwd : π
  hunks : List Hunk
  attempts : ℕ
  order : Iteration π

/-- `ApplyPatchRuntime::run`: what was committed so far and the disk, after one more attempt. -/
def PatchRun.attempt (host : Host π) (fault : ℕ → Option IoError) (run : PatchRun π)
    (before : AppliedPatchDelta π × Disk π) : AppliedPatchDelta π × Disk π :=
  let (result, disk) := (applyHunks host run.cwd run.hunks).run (exec host fault) before.2
  let delta := (result.toOption.map deltaOf).getD .empty
  (⟨before.1.changes ++ delta.changes, before.1.exact && delta.exact⟩, disk)

def PatchRun.apply (host : Host π) (fault : ℕ → Option IoError) (run : PatchRun π) (disk : Disk π) :
    AppliedPatchDelta π × Disk π :=
  (run.attempt host fault)^[run.attempts] (.empty, disk)

def applyRuns (host : Host π) (fault : Text → ℕ → Option IoError) :
    List (PatchRun π) → (Text → Disk π) → List (Step π) × (Text → Disk π)
  | [], disks => ([], disks)
  | run :: rest, disks =>
    let id := run.environmentId
    let (delta, disk) := run.apply host (fault id) (disks id)
    let (steps, disks) := applyRuns host fault rest (update disks id disk)
    (⟨run.order, id, delta⟩ :: steps, disks)

/-- Whether `tracker_update_for_known_delta` passes the record on. -/
def Step.known (step : Step π) : Bool := !(step.delta.exact && step.delta.changes.isEmpty)

omit [DecidableEq π] in
theorem flatMap_known (steps : List (Step π)) :
    (steps.filter Step.known).flatMap Step.changes = steps.flatMap Step.changes := by
  induction steps with
  | nil => rfl
  | cons step steps ih =>
    rw [filter_cons, flatMap_cons, ← ih]
    split
    · rfl
    · simp_all [Step.known, Step.changes]

def filesOf (files : Text → π → Option Text) (p : TrackedPath π) : Option Text :=
  files p.environmentId p.path

/-- The record is exact, and no file is moved onto itself. -/
def Step.Plain (step : Step π) : Prop :=
  step.delta.exact = true ∧ ∀ c ∈ step.delta.changes, MovesAway c

variable {files : Text → π → Option Text} {id : Text}

theorem replayIn_filesOf (c : AppliedPatchChange π) :
    replayIn id c (filesOf files) = filesOf (update files id (c.replay (files id))) := by
  funext p
  by_cases hp : p.environmentId = id
  · subst hp
    simp [replayIn, filesOf]
    rfl
  · simp [replayIn, filesOf, hp]

theorem truthfulFrom_changes {changes : List (AppliedPatchChange π)}
    {rest : List (Text × AppliedPatchChange π)} {now : π → Option Text}
    (htruth : Truthful (files id) changes now) (hmoves : ∀ c ∈ changes, MovesAway c)
    (hrest : TruthfulFrom (filesOf (update files id now)) rest) :
    TruthfulFrom (filesOf files) (changes.map (id, ·) ++ rest) ∧
      filesAfter (filesOf files) (changes.map (id, ·) ++ rest) =
        filesAfter (filesOf (update files id now)) rest := by
  induction changes generalizing files with
  | nil =>
    have hnow : now = files id := htruth
    rw [hnow, update_eq_self] at hrest ⊢
    exact ⟨hrest, rfl⟩
  | cons c changes ih =>
    obtain ⟨hc, hcs⟩ := forall_mem_cons.1 hmoves
    have hlater : Truthful (update files id (c.replay (files id)) id) changes now := by
      rw [update_self]
      exact htruth.2
    obtain ⟨htail, hafter⟩ := ih hlater hcs (by rwa [update_idem])
    rw [← replayIn_filesOf] at htail hafter
    rw [update_idem] at hafter
    exact ⟨truthfulFrom_cons htruth.1 hc htail, hafter⟩

section Attempts

variable (host : Host π) (fault : ℕ → Option IoError) (run : PatchRun π)

theorem attempt_extends (before : AppliedPatchDelta π × Disk π) :
    Extends before.1 before.2.files (run.attempt host fault before).1
      (run.attempt host fault before).2.files := by
  have hgives : Effects.Prog.Gives
      (exec host fault) _ (applyHunks host run.cwd run.hunks) before.2 :=
    applyHunks_gives run.cwd run.hunks
  obtain ⟨result, hresult, changes, hchanges, htruth⟩ := hgives
  simp only [PatchRun.attempt, hresult]
  refine ⟨changes, congrArg _ hchanges, fun hexact => ?_⟩
  obtain ⟨hbefore, hdelta⟩ := Bool.and_eq_true_iff.1 hexact
  exact ⟨hbefore, (htruth hdelta).2⟩

theorem apply_extends (disk : Disk π) :
    Extends .empty disk.files (run.apply host fault disk).1
      (run.apply host fault disk).2.files := by
  rw [PatchRun.apply]
  induction run.attempts with
  | zero => exact Extends.refl _ _
  | succ n ih =>
    rw [iterate_succ_apply']
    exact ih.trans (attempt_extends host fault run _)

end Attempts

variable {host : Host π} {fault : Text → ℕ → Option IoError} {runs : List (PatchRun π)}
  {disks : Text → Disk π}

theorem applyRuns_truthful (hsteps : ∀ s ∈ (applyRuns host fault runs disks).1, s.Plain) :
    let after := applyRuns host fault runs disks
    TruthfulFrom (filesOf (Disk.files ∘ disks)) (after.1.flatMap Step.changes) ∧
      filesAfter (filesOf (Disk.files ∘ disks)) (after.1.flatMap Step.changes) =
        filesOf (Disk.files ∘ after.2) := by
  induction runs generalizing disks with
  | nil => exact ⟨truthfulFrom_nil _, rfl⟩
  | cons run runs ih =>
    obtain ⟨changes, hchanges, htruth⟩ := apply_extends host (fault _) run (disks run.environmentId)
    obtain ⟨⟨hexact, hmoves⟩, hlater⟩ := forall_mem_cons.1 hsteps
    obtain ⟨hrest, hafter⟩ := ih hlater
    rw [comp_update] at hrest hafter
    rw [← nil_append changes] at htruth
    have hrecord : Truthful ((Disk.files ∘ disks) run.environmentId) _ _ :=
      hchanges ▸ (htruth hexact).2
    obtain ⟨hfirst, hsame⟩ := truthfulFrom_changes hrecord hmoves hrest
    exact ⟨hfirst, hsame.trans hafter⟩

/-- After any calls, retried and failed ones among them, the pairs that are shown lead from the
files at the start of the turn to the files now. -/
theorem turn_shows_patches (diffHost : DiffHost π) (roots : List (Text × π)) (order : Iteration π)
    (hsteps : ∀ s ∈ (applyRuns host fault runs disks).1, s.Plain) :
    let after := applyRuns host fault runs disks
    let t := runTurn diffHost roots (after.1.filter Step.known)
    (t.diffPairs diffHost order).foldl (applyPair t) (filesOf (Disk.files ∘ disks)) =
      filesOf (Disk.files ∘ after.2) := by
  intro after t
  obtain ⟨htruth, hnow⟩ := applyRuns_truthful hsteps
  rw [← flatMap_known] at htruth hnow
  have htracked : Tracked diffHost _ _ t :=
    tracked_turn roots (fun s hs => (hsteps s (mem_of_mem_filter hs)).1) htruth
  funext q
  rw [foldl_applyPair fun pair hpair => (pair_contents htracked.shows hpair).2, ← hnow]
  split
  · rfl
  · -- what is not mentioned is as it was
    rename_i hq
    exact shows_unmentioned (htracked.shows q) fun h => hq (mem_mentions_diffPairs.2 h)

/-- A name stands for its length. -/
def lengthHost : Host ℕ :=
  ⟨fun _ name => .ok name.length, fun _ => [], fun _ => none, fun _ => [], (· ++ ·)⟩

def failing : PatchRun ℕ :=
  ⟨[], 0, [.addFile ['a'] ['x'], .updateFile ['b', 'b'] none []], 1, inOrder⟩

def noFiles : Text → Disk ℕ := fun _ => ⟨fun _ => none, fun _ => false, 0⟩

/-- The file that was added before the patch failed is shown. -/
theorem failed_patch_shown :
    let after := applyRuns lengthHost (fun _ _ => none) [failing] noFiles
    let t := runTurn plainHost [] (after.1.filter Step.known)
    t.diffPairs plainHost inOrder = [(⟨[], 1⟩, ⟨[], 1⟩)] ∧
    (t.diffPairs plainHost inOrder).foldl (applyPair t) (filesOf (Disk.files ∘ noFiles)) =
      filesOf (Disk.files ∘ after.2) := by
  intro after t
  have hplain : ∀ s ∈ after.1, s.Plain := by
    change ∀ s ∈ [⟨inOrder, [], ⟨[⟨1, .add ['x'] none⟩], true⟩⟩], Step.Plain s
    simp [Step.Plain, MovesAway]
  exact ⟨by decide, turn_shows_patches plainHost [] inOrder hplain⟩

end OmniDoer.TurnDiff
