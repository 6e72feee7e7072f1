import OmniDoer.Verification.ApplyPatch.Steps

/-! # The record of an application

An exact record leads from the files as they were to the files as they are, whether all
hunks were applied or one of them failed. -/

namespace OmniDoer.ApplyPatch

open Rust Effects Edits

variable {π : Type}

/-- The record of an application that was done or has failed. -/
def deltaOf :
    Except (ApplyPatchError × AppliedPatchDelta π) (AppliedPatchDelta π) → AppliedPatchDelta π
  | .ok delta => delta
  | .error (_, delta) => delta

variable [DecidableEq π]

def replayAll (files : π → Option Text) (changes : List (AppliedPatchChange π)) : π → Option Text :=
  changes.foldl (fun files c => c.replay files) files

variable {files files' : π → Option Text}

theorem Truthful.replay {changes : List (AppliedPatchChange π)}
    (h : Truthful files changes files') : files' = replayAll files changes := by
  induction changes generalizing files with
  | nil => exact h
  | cons c rest ih => exact ih h.2

theorem Truthful.recorded {changes before after : List (AppliedPatchChange π)}
    {c : AppliedPatchChange π} (h : Truthful files changes files')
    (hsplit : changes = before ++ c :: after) :
    c.Recorded (replayAll files before) := by
  induction before generalizing files changes with
  | nil =>
    subst hsplit
    exact h.1
  | cons b before ih =>
    subst hsplit
    exact ih h.2 rfl

variable {host : Host π} {fault : ℕ → Option IoError} {d : Disk π}

theorem applyHunksToFiles_ends (cwd : π) (hunks : List Hunk) :
    (applyHunksToFiles host cwd hunks).Ends (exec host fault) (fun r d' =>
      match r with
      | .ok (delta, _) => (∃ edits, editsOf host cwd hunks = .ok edits ∧
          applyAll edits d.files = some d'.files) ∧ Extends .empty d.files delta d'.files
      | .error failure => Extends .empty d.files failure.delta d'.files) d := by
  rw [applyHunksToFiles]
  split
  · exact Extends.refl _ _
  · exact applyEach_ends cwd hunks .empty {}

theorem applyHunks_gives (cwd : π) (hunks : List Hunk) :
    (applyHunks host cwd hunks).Gives (exec host fault)
      (fun result d' => Extends .empty d.files (deltaOf result) d'.files) d := by
  have hends : Prog.Ends (exec host fault) _ (applyHunksToFiles host cwd hunks) d :=
    applyHunksToFiles_ends cwd hunks
  rw [Prog.Ends] at hends
  rw [Prog.Gives, Prog.Ends, applyHunks, Prog.run_handle, Prog.run_map]
  cases hrun : (applyHunksToFiles host cwd hunks).run (exec host fault) d with
  | mk r d' =>
    rw [hrun] at hends
    cases r with
    | ok result => exact ⟨_, rfl, hends.2⟩
    | error failure => exact ⟨_, rfl, hends⟩

variable (host fault d) in
/-- Whether the hunks are applied or not, an exact record leads to the files as they are, and
each change says what the files held just before it. -/
theorem delta_truthful (cwd : π) (hunks : List Hunk) :
    ∃ result, ((applyHunks host cwd hunks).run (exec host fault) d).1 = .ok result ∧
      ((deltaOf result).exact = true →
        ((applyHunks host cwd hunks).run (exec host fault) d).2.files =
            replayAll d.files (deltaOf result).changes ∧
          ∀ before c after, (deltaOf result).changes = before ++ c :: after →
            c.Recorded (replayAll d.files before)) := by
  obtain ⟨result, hresult, changes, hchanges,
      htruth⟩ : (applyHunks host cwd hunks).Gives (exec host fault) _ d :=
    applyHunks_gives cwd hunks
  refine ⟨result, hresult, fun hexact => ?_⟩
  rw [hchanges]
  exact ⟨(htruth hexact).2.replay, fun before c after hsplit => (htruth hexact).2.recorded hsplit⟩

end OmniDoer.ApplyPatch
