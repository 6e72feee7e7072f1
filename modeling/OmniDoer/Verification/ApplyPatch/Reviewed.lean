import OmniDoer.Verification.ApplyPatch.Delta

/-! # What is reviewed and what is applied

The changes for review say what each hunk does to the files as they are at first, and of the
hunks for one path they keep the last. The hunks are applied one after another. The two agree
for all contents of the files and of the hunks exactly when the paths of the hunks are
compatible. -/

namespace OmniDoer.ApplyPatch

open Rust Effects Edits Tables List ApplyPatchFileChange

variable {π : Type}

/-- The files are as the change of the path says. -/
def ApplyPatchFileChange.Holds (files : π → Option Text) (path : π) : ApplyPatchFileChange π → Prop
  | .add content => files path = some content
  | .delete _ => files path = none
  | .update _ none new => files path = some new
  | .update _ (some dest) new => files dest = some new ∧ files path = none

/-- The files after exactly these changes. -/
structure Performed [DecidableEq π] (changes : Changes π)
    (before after : π → Option Text) : Prop where
  holds : ∀ row ∈ changes.rows, row.2.Holds after row.1
  rest : ∀ q, q ∉ changes.rows.flatMap filePathsOf → after q = before q

/-- What a change writes. -/
def ApplyPatchFileChange.writes (path : π) : ApplyPatchFileChange π → List (π × Option Text)
  | .add content => [(path, some content)]
  | .delete _ => [(path, none)]
  | .update _ none new => [(path, some new)]
  | .update _ (some dest) new => [(dest, some new), (path, none)]

theorem holds_iff {files : π → Option Text} {path : π} {change : ApplyPatchFileChange π} :
    change.Holds files path ↔ ∀ w ∈ change.writes path, files w.1 = w.2 := by
  cases change with
  | add | delete => simp [Holds, writes]
  | update diff movePath new =>
    cases movePath <;> simp [Holds, writes]

theorem mem_filePathsOf_iff {path q : π} {change : ApplyPatchFileChange π} :
    q ∈ filePathsOf (path, change) ↔ q ∈ (change.writes path).map Prod.fst := by
  cases change with
  | add | delete => simp [filePathsOf, writes]
  | update diff movePath new =>
    cases movePath with
    | none => simp [filePathsOf, writes]
    | some dest => simp [filePathsOf, writes, or_comm]

/-- The change is what the edit writes when it finds these files. -/
def Reviews (files : π → Option Text) (e : Edit π Text) (change : ApplyPatchFileChange π) : Prop :=
  e.writes files = some (change.writes e.path)

def rowsOf (reviewed : List (Edit π Text × ApplyPatchFileChange π)) :
    List (π × ApplyPatchFileChange π) :=
  reviewed.map fun r => (r.1.path, r.2)

section Review

variable [DecidableEq π] {host : Host π} {fault : ℕ → Option IoError} {d : Disk π}

theorem readForReview_ends (context : String) (path : π) :
    (readForReview host context path).Ends (exec host fault) (fun r d' => d'.files = d.files ∧
      ∀ text, r = .ok text → d.files path = some text) d := by
  have hread : ReadOf d.files path (exec host fault (.readFileText path) d).1 ∧ _ := exec_read
  rw [Prog.Ends, readForReview, Prog.run_op]
  cases hanswer : (exec host fault (.readFileText path) d).1 with
  | ok text =>
    rw [hanswer] at hread
    refine ⟨hread.2, fun text' h => ?_⟩
    cases h
    exact hread.1
  | error e => exact ⟨hread.2, fun _ h => by cases h⟩

theorem reviewHunk_ends {cwd path : π} {hunk : Hunk}
    (hpath : hunk.resolvePath host cwd = .ok path) :
    (reviewHunk host cwd path hunk).Ends (exec host fault) (fun r d' => d'.files = d.files ∧
      ∀ change, r = .ok change → ∃ e, hunk.edit host cwd = .ok e ∧ e.path = path ∧
        Reviews d.files e change) d := by
  have hfailed {error : ApplyPatchError} {d' : Disk π} (hfiles : d'.files = d.files) :
      d'.files = d.files ∧
        ∀ change, (.error error : Except ApplyPatchError (ApplyPatchFileChange π)) =
        .ok change → ∃ e, hunk.edit host cwd = .ok e ∧ e.path = path ∧ Reviews d.files e change :=
    ⟨hfiles, fun _ h => nomatch h⟩
  cases hunk with
  | addFile name contents =>
    refine ⟨rfl, fun change h => ?_⟩
    cases h
    exact ⟨_, edit_add hpath contents, rfl, rfl⟩
  | deleteFile name =>
    refine (readForReview_ends "Failed to read" path).bind ?_ fun e d' h => hfailed h.1
    rintro text d' ⟨hfiles, htext⟩
    refine ⟨hfiles, fun change h => ?_⟩
    cases h
    refine ⟨_, edit_delete hpath, rfl, ?_⟩
    rw [Reviews, Edit.writes, htext text rfl]
    rfl
  | updateFile name movePath chunks =>
    refine (readForReview_ends "Failed to read file to update" path).bind ?_
      fun e d' h => hfailed h.1
    rintro original d' ⟨hfiles, htext⟩
    have hold := htext original rfl
    cases hnew : newContents (host.nativeText path) chunks original with
    | error e => exact hfailed hfiles
    | ok new =>
      have hrewriting : rewriting host path chunks original = some new := by
        rw [rewriting, hnew]
        rfl
      cases hdest : resolveDest host cwd movePath with
      | error e => exact hfailed hfiles
      | ok dest =>
        refine ⟨hfiles, fun change h => ?_⟩
        cases h
        refine ⟨_, (edit_update hpath).2 ⟨_, hdest, rfl⟩, ?_, ?_⟩
        · cases dest <;> rfl
        · cases dest <;> simp [Reviews, updateEdit, Edit.writes, hold, hrewriting, Edit.path,
            writes]

theorem reviewEach_ends (cwd : π) (hunks : List Hunk) (changes : Changes π) :
    (reviewEach host cwd hunks changes).Ends (exec host fault) (fun r d' => d'.files = d.files ∧
      ∀ changes', r = .ok changes' →
        ∃ reviewed, editsOf host cwd hunks = .ok (reviewed.map Prod.fst) ∧
        (∀ x ∈ reviewed, Reviews d.files x.1 x.2) ∧
        changes' = (rowsOf reviewed).foldl Table.insert changes) d := by
  induction hunks generalizing changes d with
  | nil =>
    refine ⟨rfl, fun changes' h => ?_⟩
    cases h
    exact ⟨[], rfl, (fun _ h => nomatch h), rfl⟩
  | cons hunk rest ih =>
    change Prog.Ends (exec host fault) _
      (Prog.ofExcept ((hunk.resolvePath host cwd).mapError ApplyPatchError.pathUri) >>= _) d
    cases hpath : hunk.resolvePath host cwd with
    | error e => exact ⟨rfl, fun _ h => nomatch h⟩
    | ok path =>
      refine (reviewHunk_ends hpath).bind ?_ fun e d' h => ⟨h.1, fun _ h' => nomatch h'⟩
      rintro change d₁ ⟨h₁, hchange⟩
      obtain ⟨e, he, hepath, hreviews⟩ := hchange change rfl
      refine (ih (changes.insert (path, change))).mono fun r d' ⟨h₂, hrest⟩ => ?_
      refine ⟨h₂.trans h₁, fun changes' h => ?_⟩
      obtain ⟨reviewed, hedits, hall, hchanges⟩ := hrest changes' h
      rw [h₁] at hall
      refine ⟨(e, change) :: reviewed, ?_, ?_, ?_⟩
      · exact editsOf_eq_ok_iff.2 (.cons he (editsOf_eq_ok_iff.1 hedits))
      · intro x hx
        rcases mem_cons.1 hx with rfl | hx
        · exact hreviews
        · exact hall x hx
      · rw [hchanges, rowsOf, rowsOf, map_cons, foldl_cons, hepath]

variable {reviewed : List (Edit π Text × ApplyPatchFileChange π)}

theorem mem_changes_iff {row : π × ApplyPatchFileChange π} :
    row ∈ ((rowsOf reviewed).foldl Table.insert (.empty : Changes π)).rows ↔
      ∃ before x after, reviewed = before ++ x :: after ∧ row = (x.1.path, x.2) ∧
        x.1.path ∉ after.map fun y => y.1.path := by
  rw [Table.mem_foldl_insert]
  constructor
  · rintro (⟨before, after, hsplit, hkey⟩ | ⟨hmem, -⟩)
    · obtain ⟨before', tail, rfl, rfl, htail⟩ := map_eq_append_iff.1 hsplit
      obtain ⟨x, after', rfl, rfl, rfl⟩ := map_eq_cons_iff.1 htail
      refine ⟨before', x, after', rfl, rfl, ?_⟩
      simpa [map_map, Function.comp_def] using hkey
    · cases hmem
  · rintro ⟨before, x, after, rfl, rfl, hkey⟩
    refine .inl ⟨rowsOf before, rowsOf after, ?_, ?_⟩
    · rw [rowsOf, map_append]
      rfl
    · simpa [rowsOf, map_map, Function.comp_def] using hkey

omit [DecidableEq π] in
theorem mem_shown_map_iff [DecidableEq π] {e : Edit π Text} :
    e ∈ shown (reviewed.map Prod.fst) ↔
      ∃ before x after, reviewed = before ++ x :: after ∧ e = x.1 ∧
        x.1.path ∉ after.map fun y => y.1.path := by
  rw [mem_shown_iff]
  constructor
  · rintro ⟨before, after, hsplit, hkey⟩
    obtain ⟨before', tail, rfl, rfl, htail⟩ := map_eq_append_iff.1 hsplit
    obtain ⟨x, after', rfl, rfl, rfl⟩ := map_eq_cons_iff.1 htail
    refine ⟨before', x, after', rfl, rfl, ?_⟩
    simpa [map_map, Function.comp_def] using hkey
  · rintro ⟨before, x, after, rfl, rfl, hkey⟩
    refine ⟨before.map Prod.fst, after.map Prod.fst, by simp, ?_⟩
    simpa [map_map, Function.comp_def] using hkey

theorem mem_paths_iff {files : π → Option Text} (hreviewed : ∀ x ∈ reviewed, Reviews files x.1 x.2)
    {q : π} :
    q ∈ ((rowsOf reviewed).foldl Table.insert (.empty : Changes π)).rows.flatMap filePathsOf ↔
      ∃ e ∈ shown (reviewed.map Prod.fst), q ∈ e.touched := by
  rw [mem_flatMap]
  constructor
  · rintro ⟨row, hrow, hq⟩
    obtain ⟨before, x, after, rfl, rfl, hkey⟩ := mem_changes_iff.1 hrow
    refine ⟨x.1, mem_shown_map_iff.2 ⟨before, x, after, rfl, rfl, hkey⟩, ?_⟩
    rw [← Edit.map_fst_writes (hreviewed x (by simp)), ← mem_filePathsOf_iff]
    exact hq
  · rintro ⟨e, he, hq⟩
    obtain ⟨before, x, after, rfl, rfl, hkey⟩ := mem_shown_map_iff.1 he
    refine ⟨_, mem_changes_iff.2 ⟨before, x, after, rfl, rfl, hkey⟩, ?_⟩
    rw [mem_filePathsOf_iff, Edit.map_fst_writes (hreviewed x (by simp))]
    exact hq

theorem performed_iff_kept {files files' : π → Option Text}
    (hreviewed : ∀ x ∈ reviewed, Reviews files x.1 x.2) :
    Performed ((rowsOf reviewed).foldl Table.insert .empty) files files' ↔
      Kept (reviewed.map Prod.fst) files files' := by
  constructor
  · intro h
    constructor
    · intro e he ws hws
      obtain ⟨before, x, after, rfl, rfl, hkey⟩ := mem_shown_map_iff.1 he
      have hholds := h.holds _ (mem_changes_iff.2 ⟨before, x, after, rfl, rfl, hkey⟩)
      rw [holds_iff] at hholds
      rw [hreviewed x (by simp)] at hws
      exact Option.some.inj hws ▸ hholds
    · intro q hq
      refine h.rest q fun hmem => ?_
      obtain ⟨e, he, hqe⟩ := (mem_paths_iff hreviewed).1 hmem
      exact hq e he hqe
  · intro h
    constructor
    · intro row hrow
      obtain ⟨before, x, after, rfl, rfl, hkey⟩ := mem_changes_iff.1 hrow
      rw [holds_iff]
      exact h.shown x.1 (mem_shown_map_iff.2 ⟨before, x, after, rfl, rfl, hkey⟩) _
        (hreviewed x (by simp))
    · intro q hq
      exact h.rest q fun e he hqe => hq ((mem_paths_iff hreviewed).2 ⟨e, he, hqe⟩)

theorem verified {args : ApplyPatchArgs} {cwd : π} {action : ApplyPatchAction π}
    (h : ((tryVerifyApplyPatchArgs host args cwd).run (exec host fault) d).1 = .ok action) :
    ∃ reviewed, editsOf host action.cwd args.hunks = .ok (reviewed.map Prod.fst) ∧
      (∀ x ∈ reviewed, Reviews d.files x.1 x.2) ∧
      action.changes = (rowsOf reviewed).foldl Table.insert .empty := by
  have hends : (tryVerifyApplyPatchArgs host args cwd).Ends (exec host fault) (fun r _ =>
      ∀ action, r = .ok action → ∃ reviewed,
        editsOf host action.cwd args.hunks = .ok (reviewed.map Prod.fst) ∧
        (∀ x ∈ reviewed, Reviews d.files x.1 x.2) ∧
        action.changes = (rowsOf reviewed).foldl Table.insert .empty) d := by
    rw [tryVerifyApplyPatchArgs]
    cases effectiveCwd host cwd args.workdir with
    | error e =>
      intro action h
      cases h
    | ok cwd =>
      refine (reviewEach_ends cwd args.hunks .empty).bind ?_ ?_
      · rintro changes d' ⟨-, hchanges⟩ action haction
        cases haction
        exact hchanges changes rfl
      · intro e d' _ action h
        cases h
  exact hends action h

theorem applied {cwd : π} {hunks : List Hunk} {result : AppliedPatchDelta π × AffectedPaths}
    (h : ((applyHunksToFiles host cwd hunks).run (exec host fault) d).1 = .ok result) :
    ∃ edits, editsOf host cwd hunks = .ok edits ∧
      applyAll edits d.files =
        some ((applyHunksToFiles host cwd hunks).run (exec host fault) d).2.files := by
  have hends : Prog.Ends (exec host fault) _ (applyHunksToFiles host cwd hunks) d :=
    applyHunksToFiles_ends cwd hunks
  rw [Prog.Ends, h] at hends
  exact hends.1

end Review

end OmniDoer.ApplyPatch
