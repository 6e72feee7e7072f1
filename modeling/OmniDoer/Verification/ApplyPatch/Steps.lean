import OmniDoer.Library.Edits
import OmniDoer.Model.ApplyPatch

/-! # What applying a hunk does

A hunk that is applied is one edit of the files, whatever faults the operations meet. Its
record says what the files held before and leads from them to the files as they are, as long
as the record is exact, also where the hunk fails halfway. -/

namespace OmniDoer.ApplyPatch

open Rust Effects Edits Function

variable {π : Type}

section Edit

variable (host : Host π)

/-- What the chunks of an update make of the content that they find. -/
def rewriting (path : π) (chunks : List UpdateFileChunk) (content : Text) : Option Text :=
  (newContents (host.nativeText path) chunks content).toOption

variable {host} in
theorem rewriting_eq_some_iff {path : π} {chunks : List UpdateFileChunk} {content new : Text} :
    rewriting host path chunks content = some new ↔
      newContents (host.nativeText path) chunks content = .ok new := by
  rw [rewriting]
  cases newContents (host.nativeText path) chunks content with
  | error | ok => simp [Except.toOption]

def updateEdit (path : π) (dest : Option π) (chunks : List UpdateFileChunk) : Edit π Text :=
  match dest with
  | none => .update path (rewriting host path chunks)
  | some dest => .move path dest (rewriting host path chunks)

def Hunk.edit (cwd : π) (hunk : Hunk) : Except PathUriParseError (Edit π Text) := do
  let path ← hunk.resolvePath host cwd
  match hunk with
  | .addFile _ contents => return .add path contents
  | .deleteFile _ => return .delete path
  | .updateFile _ movePath chunks =>
    return updateEdit host path (← resolveDest host cwd movePath) chunks

variable {host} {cwd path : π} {name : Text}

section

variable (hpath : host.join cwd name = .ok path)
include hpath

theorem edit_add (contents : Text) :
    (Hunk.addFile name contents).edit host cwd = .ok (.add path contents) := by
  rw [Hunk.edit, Hunk.resolvePath, Hunk.source, hpath]
  rfl

theorem edit_delete : (Hunk.deleteFile name).edit host cwd = .ok (.delete path) := by
  rw [Hunk.edit, Hunk.resolvePath, Hunk.source, hpath]
  rfl

theorem edit_update {movePath : Option Text} {chunks : List UpdateFileChunk} {e : Edit π Text} :
    (Hunk.updateFile name movePath chunks).edit host cwd = .ok e ↔
      ∃ dest, resolveDest host cwd movePath = .ok dest ∧ updateEdit host path dest chunks = e := by
  rw [Hunk.edit, Hunk.resolvePath, Hunk.source, hpath]
  change (resolveDest host cwd movePath >>= _) = _ ↔ _
  cases resolveDest host cwd movePath with
  | error | ok => simp [bind, Except.bind, pure, Except.pure]

end

theorem edit_cases {hunk : Hunk} {e : Edit π Text} (h : hunk.edit host cwd = .ok e) :
    ∃ path, host.join cwd hunk.source = .ok path ∧
      ((∃ name contents, hunk = .addFile name contents ∧ e = .add path contents) ∨
        (∃ name, hunk = .deleteFile name ∧ e = .delete path) ∨
        ∃ name movePath chunks dest, hunk = .updateFile name movePath chunks ∧
          resolveDest host cwd movePath = .ok dest ∧ e = updateEdit host path dest chunks) := by
  cases hpath : host.join cwd hunk.source with
  | error error =>
    rw [Hunk.edit, Hunk.resolvePath, hpath] at h
    cases h
  | ok path =>
    refine ⟨path, rfl, ?_⟩
    cases hunk with
    | addFile name contents =>
      rw [Hunk.source] at hpath
      rw [edit_add hpath] at h
      cases h
      exact .inl ⟨name, contents, rfl, rfl⟩
    | deleteFile name =>
      rw [Hunk.source] at hpath
      rw [edit_delete hpath] at h
      cases h
      exact .inr (.inl ⟨name, rfl, rfl⟩)
    | updateFile name movePath chunks =>
      rw [Hunk.source] at hpath
      obtain ⟨dest, hdest, rfl⟩ := (edit_update hpath).1 h
      exact .inr (.inr ⟨name, movePath, chunks, dest, rfl, hdest, rfl⟩)

end Edit

section Records

variable [DecidableEq π]

/-- The files after a recorded change. -/
def AppliedPatchChange.replay (c : AppliedPatchChange π) (files : π → Option Text) :
    π → Option Text :=
  match c.change with
  | .add content _ => Function.update files c.path (some content)
  | .delete _ => Function.update files c.path none
  | .update none _ _ new => Function.update files c.path (some new)
  | .update (some dest) _ _ new =>
    Function.update (Function.update files dest (some new)) c.path none

/-- The change says what the files held before it. -/
def AppliedPatchChange.Recorded (c : AppliedPatchChange π) (files : π → Option Text) : Prop :=
  match c.change with
  | .add _ overwritten => overwritten = files c.path
  | .delete content => some content = files c.path
  | .update none old _ _ => some old = files c.path
  | .update (some dest) old overwritten _ => some old = files c.path ∧ overwritten = files dest

/-- The changes lead from the first files to the last, and each says what was there before. -/
def Truthful (files : π → Option Text) : List (AppliedPatchChange π) → (π → Option Text) → Prop
  | [], files' => files' = files
  | c :: rest, files' => c.Recorded files ∧ Truthful (c.replay files) rest files'

theorem Truthful.append {files files' files'' : π → Option Text}
    {cs cs' : List (AppliedPatchChange π)}
    (h : Truthful files cs files') (h' : Truthful files' cs' files'') :
    Truthful files (cs ++ cs') files'' := by
  induction cs generalizing files with
  | nil =>
    have hfiles : files' = files := h
    rwa [hfiles] at h'
  | cons c cs ih => exact ⟨h.1, ih h.2⟩

variable {files : π → Option Text}

theorem Truthful.single {c : AppliedPatchChange π} (h : c.Recorded files) :
    Truthful files [c] (c.replay files) := ⟨h, rfl⟩

/-- A later record: it says more, and what it adds is truthful if the record is exact. -/
def Extends (delta : AppliedPatchDelta π) (files : π → Option Text) (delta' : AppliedPatchDelta π)
    (files' : π → Option Text) : Prop :=
  ∃ changes, delta'.changes = delta.changes ++ changes ∧
    (delta'.exact = true → delta.exact = true ∧ Truthful files changes files')

theorem Extends.trans {delta delta' delta'' : AppliedPatchDelta π}
    {files files' files'' : π → Option Text} (h : Extends delta files delta' files')
    (h' : Extends delta' files' delta'' files'') : Extends delta files delta'' files'' := by
  obtain ⟨cs, hcs, hexact⟩ := h
  obtain ⟨cs', hcs', hexact'⟩ := h'
  refine ⟨cs ++ cs', by rw [hcs', hcs, List.append_assoc], fun hd => ?_⟩
  obtain ⟨hd', htruth'⟩ := hexact' hd
  obtain ⟨hd, htruth⟩ := hexact hd'
  exact ⟨hd, htruth.append htruth'⟩

theorem extends_same {delta : AppliedPatchDelta π} {exact : Bool}
    (h : exact = true → delta.exact = true) : Extends delta files { delta with exact } files :=
  ⟨[], (List.append_nil _).symm, fun hexact => ⟨h hexact, rfl⟩⟩

theorem extends_push {delta : AppliedPatchDelta π} {exact : Bool} {path : π}
    {change : AppliedPatchFileChange π}
    (h : exact = true → delta.exact = true ∧ AppliedPatchChange.Recorded ⟨path, change⟩ files) :
    Extends delta files (AppliedPatchDelta.push { delta with exact } path change)
      (AppliedPatchChange.replay ⟨path, change⟩ files) :=
  ⟨[⟨path, change⟩], rfl, fun hexact => ⟨(h hexact).1, .single (h hexact).2⟩⟩

end Records

section Operations

variable [DecidableEq π] {host : Host π} {fault : ℕ → Option IoError} {d : Disk π} {path : π}

def Calm (d : Disk π) : Prop := ∀ p, d.directories p = false

def noFault : ℕ → Option IoError := fun _ => none

/-- No operation meets a fault, and no path is a directory. -/
structure Smooth (fault : ℕ → Option IoError) (d : Disk π) : Prop where
  faultless : ∀ n, fault n = none
  calm : Calm d

/-- A read finds the content, and says that a file is missing only when it is. -/
def ReadOf (files : π → Option Text) (path : π) : Except IoError Text → Prop
  | .ok text => files path = some text
  | .error e => e.kind = .notFound → files path = none

theorem exec_read : ReadOf d.files path (exec host fault (.readFileText path) d).1 ∧
    (exec host fault (.readFileText path) d).2.files = d.files := by
  cases hfault : fault d.ops with
  | some e => simp [exec, hfault, FsOp.failed, ReadOf, refused]
  | none => cases hfile : d.files path <;> simp [exec, hfault, perform, hfile, ReadOf]

theorem exec_metadata : (exec host fault (.getMetadata path) d).2.files = d.files := by
  cases hfault : fault d.ops with
  | some e => simp [exec, hfault]
  | none => cases hfile : d.files path <;> simp [exec, hfault, perform, hfile]

theorem exec_createDirectory : (exec host fault (.createDirectory path) d).2.files = d.files := by
  cases hfault : fault d.ops with
  | some e => simp [exec, hfault]
  | none =>
    simp only [exec, hfault, perform]
    split <;> rfl

theorem exec_write (contents : Text) :
    ((exec host fault (.writeFile path contents) d).1 = .ok () ∧
      (exec host fault (.writeFile path contents) d).2.files =
        Function.update d.files path (some contents)) ∨
    ∃ e, (exec host fault (.writeFile path contents) d).1 = .error e ∧
      (exec host fault (.writeFile path contents) d).2.files = d.files := by
  cases hfault : fault d.ops with
  | some e => exact .inr ⟨e, by simp [exec, hfault, FsOp.failed]⟩
  | none =>
    cases hdir : d.directories path with
    | true => exact .inr (by simp [exec, hfault, perform, hdir])
    | false => exact .inl (by simp [exec, hfault, perform, hdir])

theorem exec_remove :
    ((exec host fault (.remove path) d).1 = .ok () ∧ (d.files path).isSome = true ∧
      (exec host fault (.remove path) d).2.files = Function.update d.files path none) ∨
    ∃ e, (exec host fault (.remove path) d).1 = .error e ∧
      (exec host fault (.remove path) d).2.files = d.files := by
  cases hfault : fault d.ops with
  | some e => exact .inr ⟨e, by simp [exec, hfault, FsOp.failed]⟩
  | none =>
    cases hfile : d.files path with
    | some text => exact .inl (by simp [exec, hfault, perform, hfile])
    | none => exact .inr (by simp [exec, hfault, perform, hfile])

theorem Smooth.exec (h : Smooth fault d) (o : FsOp π) :
    exec host fault o d = perform host o { d with ops := d.ops + 1 } := by
  rw [ApplyPatch.exec, h.faultless]

omit [DecidableEq π] in
theorem Smooth.next (h : Smooth fault d) (files : π → Option Text) :
    Smooth fault { d with files, ops := d.ops + 1 } :=
  ⟨h.faultless, h.calm⟩

theorem Smooth.metadata (h : Smooth fault d) :
    Smooth fault (ApplyPatch.exec host fault (.getMetadata path) d).2 ∧
    ((d.files path).isSome = true →
      ∃ m, (ApplyPatch.exec host fault (.getMetadata path) d).1 = .ok m ∧
        m.isDirectory = false) := by
  rw [h.exec]
  cases hfile : d.files path <;> simp [perform, hfile, h.next d.files]

theorem Smooth.read (h : Smooth fault d) :
    Smooth fault (ApplyPatch.exec host fault (.readFileText path) d).2 ∧
    ∀ text, d.files path = some text →
      (ApplyPatch.exec host fault (.readFileText path) d).1 = .ok text := by
  rw [h.exec]
  cases hfile : d.files path <;> simp [perform, hfile, h.next d.files]

end Operations

section Helpers

variable [DecidableEq π] {host : Host π} {fault : ℕ → Option IoError} {d : Disk π} {path : π}

theorem getMetadata_gives :
    (getMetadata path).Gives (exec host fault) (fun x d' => d'.files = d.files ∧
    (Smooth fault d → Smooth fault d' ∧
      ((d.files path).isSome = true → ∃ m, x = .ok m ∧ m.isDirectory = false))) d :=
  ⟨_, rfl, exec_metadata, Smooth.metadata⟩

theorem readFileText_gives : (readFileText path).Gives (exec host fault) (fun x d' =>
    ReadOf d.files path x ∧ d'.files = d.files ∧
      (Smooth fault d → Smooth fault d' ∧ ∀ text, d.files path = some text → x = .ok text)) d :=
  ⟨_, rfl, exec_read.1, exec_read.2, Smooth.read⟩

theorem note_gives (exact : Bool) :
    (noteExistingPathDeltaSupport path exact).Gives (exec host fault)
    (fun exact' d' => d'.files = d.files ∧ (exact' = true → exact = true) ∧
      (Smooth fault d → Smooth fault d')) d := by
  refine getMetadata_gives.bind fun metadata d' ⟨hfiles, hsmooth⟩ => ?_
  cases metadata with
  | ok | error =>
    exact .pure ⟨hfiles, fun h => (Bool.and_eq_true_iff.1 h).1, fun h => (hsmooth h).1⟩

theorem readOptional_gives (exact : Bool) :
    (readOptionalFileTextForDelta path exact).Gives (exec host fault) (fun x d' =>
      d'.files = d.files ∧ (x.2 = true → exact = true ∧ x.1 = d.files path) ∧
        (Smooth fault d → Smooth fault d')) d := by
  refine (note_gives exact).bind fun noted d' ⟨hfiles, hexact, hsmooth⟩ => ?_
  refine readFileText_gives.bind fun x d'' ⟨hread, hfiles', hsmooth'⟩ => ?_
  rw [hfiles] at hread hfiles'
  cases x with
  | ok content =>
    exact .pure ⟨hfiles', fun h => ⟨hexact h, hread.symm⟩, fun h => (hsmooth' (hsmooth h)).1⟩
  | error e =>
    refine .pure ⟨hfiles', fun h => ?_, fun h => (hsmooth' (hsmooth h)).1⟩
    obtain ⟨hnoted, hkind⟩ := Bool.and_eq_true_iff.1 h
    exact ⟨hexact hnoted, (hread (by simpa using hkind)).symm⟩

def Wrote (path : π) (contents : Text) (files : π → Option Text) {ε : Type} (x : Except ε Unit)
    (d' : Disk π) : Prop :=
  (x = .ok () ∧ d'.files = Function.update files path (some contents)) ∨
    ∃ e, x = .error e ∧ d'.files = files

theorem writeFile_gives (contents : Text) :
    (writeFile path contents).Gives (exec host fault) (fun x d' =>
    Wrote path contents d.files x d' ∧ (Smooth fault d → x = .ok () ∧ Smooth fault d')) d := by
  refine ⟨_, rfl, exec_write contents, fun h => ?_⟩
  have hexec : exec host fault (.writeFile path contents) d =
      (.ok (), { d with files := update d.files path (some contents), ops := d.ops + 1 }) := by
    rw [h.exec]
    exact if_neg (ne_true_of_eq_false (h.calm path))
  change (exec host fault (.writeFile path contents) d).1 = _ ∧ Smooth fault (exec host fault _ d).2
  rw [hexec]
  exact ⟨rfl, h.next _⟩

theorem written_wrote {contents : Text} {files : π → Option Text} {x : Except IoError Unit}
    {d' : Disk π}
    (h : Wrote path contents files x d') : Wrote path contents files (written host path x) d' := by
  rcases h with ⟨rfl, hfiles⟩ | ⟨e, rfl, hfiles⟩
  · exact .inl ⟨rfl, hfiles⟩
  · exact .inr ⟨_, rfl, hfiles⟩

theorem writeAgain_gives {files : π → Option Text} (hfiles : d.files = files) (contents : Text)
    {rough : Prop} (hrough : ¬ rough) :
    (do return written host path (← writeFile path contents) :
      PatchProg π (Except AnyError Unit)).Gives (exec host fault) (fun x d' =>
        Wrote path contents files x d' ∧ (rough → x = .ok () ∧ Smooth fault d')) d := by
  refine (writeFile_gives contents).bind fun x d' ⟨hwrote, _⟩ => ?_
  rw [hfiles] at hwrote
  exact .pure ⟨written_wrote hwrote, fun h => absurd h hrough⟩

theorem createDirectory_gives :
    (createDirectory path).Gives (exec host fault) (fun _ d' => d'.files = d.files) d :=
  ⟨_, rfl, exec_createDirectory⟩

theorem writeRetry_gives (contents : Text) :
    (writeFileWithMissingParentRetry host path contents).Gives (exec host fault) (fun x d' =>
      Wrote path contents d.files x d' ∧ (Smooth fault d → x = .ok () ∧ Smooth fault d')) d := by
  refine (writeFile_gives contents).bind fun x d' ⟨hwrote, hsmooth⟩ => ?_
  rcases hwrote with ⟨rfl, hfiles⟩ | ⟨e, rfl, hfiles⟩
  · exact .pure ⟨.inl ⟨rfl, hfiles⟩, fun h => ⟨rfl, (hsmooth h).2⟩⟩
  · have hrough : ¬ Smooth fault d := fun h => by cases (hsmooth h).1
    dsimp only
    split
    · cases host.parent path with
      | none => exact writeAgain_gives hfiles contents hrough
      | some parent =>
        refine createDirectory_gives.bind fun x d'' hfiles' => ?_
        cases x with
        | ok _ => exact writeAgain_gives (hfiles'.trans hfiles) contents hrough
        | error e => exact .pure ⟨.inr ⟨_, rfl, hfiles'.trans hfiles⟩, fun h => absurd h hrough⟩
    · exact .pure ⟨written_wrote (.inr ⟨e, rfl, hfiles⟩), fun h => absurd h hrough⟩

theorem ensureNotDirectory_gives :
    (ensureNotDirectory path).Gives (exec host fault) (fun x d' => d'.files = d.files ∧
      (Smooth fault d → Smooth fault d' ∧ ((d.files path).isSome = true → x = .ok ()))) d := by
  refine getMetadata_gives.bind fun metadata d' ⟨hfiles, hsmooth⟩ => ?_
  cases metadata with
  | ok metadata =>
    refine .pure ⟨hfiles, fun h => ⟨(hsmooth h).1, fun hfile => ?_⟩⟩
    obtain ⟨_, ⟨⟩, hdir⟩ := (hsmooth h).2 hfile
    rw [hdir]
    rfl
  | error e =>
    refine .pure ⟨hfiles, fun h => ⟨(hsmooth h).1, fun hfile => ?_⟩⟩
    obtain ⟨_, ⟨⟩, -⟩ := (hsmooth h).2 hfile

theorem removeFile_gives : (removeFile path).Gives (exec host fault) (fun x d' =>
    ((x = .ok () ∧ (d.files path).isSome = true ∧ d'.files = Function.update d.files path none) ∨
      ∃ e, x = .error e ∧ d'.files = d.files) ∧
    (Smooth fault d → (d.files path).isSome = true → x = .ok () ∧ Smooth fault d')) d := by
  refine ⟨_, rfl, exec_remove, fun h hfile => ?_⟩
  obtain ⟨text, htext⟩ := Option.isSome_iff_exists.1 hfile
  have hexec : exec host fault (.remove path) d =
      (.ok (), { d with files := update d.files path none, ops := d.ops + 1 }) := by
    rw [h.exec]
    simp [perform, htext]
  change (exec host fault (.remove path) d).1 = _ ∧ Smooth fault (exec host fault _ d).2
  rw [hexec]
  exact ⟨rfl, h.next _⟩

theorem sideEffectFree_gives (expected : Option Text) :
    (removeFailureWasSideEffectFree path expected).Gives (exec host fault)
      (fun _ d' => d'.files = d.files) d := by
  cases expected with
  | none => exact .pure rfl
  | some expected =>
    refine readFileText_gives.bind fun x d' ⟨_, hfiles, _⟩ => ?_
    cases x with
    | ok | error => exact .pure hfiles

theorem removeOrFail_ends (what : String) (expected : Option Text) (delta : AppliedPatchDelta π) :
    (removeOrFail host what path expected delta).Ends (exec host fault) (fun r d' =>
      match r with
      | .ok () => (d.files path).isSome = true ∧ d'.files = Function.update d.files path none ∧
          (Smooth fault d → Smooth fault d')
      | .error failure => d'.files = d.files ∧ failure.delta.changes = delta.changes ∧
          (failure.delta.exact = true → delta.exact = true) ∧
            (Smooth fault d → d.files path = none)) d := by
  refine ensureNotDirectory_gives.then fun x d' ⟨hfiles, hsmooth⟩ => ?_
  cases x with
  | error e =>
    refine ⟨hfiles, rfl, id, fun h => ?_⟩
    exact Option.not_isSome_iff_eq_none.1 fun hfile => by cases (hsmooth h).2 hfile
  | ok _ =>
    refine removeFile_gives.then fun x d'' ⟨hremoved, hsmooth'⟩ => ?_
    rw [hfiles] at hremoved hsmooth'
    rcases hremoved with ⟨rfl, hsome, hfiles'⟩ | ⟨e, rfl, hfiles'⟩
    · exact ⟨hsome, hfiles', fun h => (hsmooth' (hsmooth h).1 hsome).2⟩
    · refine (sideEffectFree_gives expected).then fun free d₃ hfiles'' => ?_
      refine ⟨hfiles''.trans hfiles', rfl, fun h => (Bool.and_eq_true_iff.1 h).1, fun h => ?_⟩
      exact Option.not_isSome_iff_eq_none.1 fun hfile => by cases (hsmooth' (hsmooth h).1 hfile).1

end Helpers

section Hunks

variable [DecidableEq π] {host : Host π} {fault : ℕ → Option IoError} {d : Disk π} {path : π}

/-- The hunk is applied as one edit, or it fails; the record extends the one before it. -/
def Applied (e : Edit π Text) (delta : AppliedPatchDelta π) (files : π → Option Text)
    (r : Except (ApplyPatchFailure π) (AppliedPatchDelta π)) (d' : Disk π) : Prop :=
  match r with
  | .ok delta' => e.apply files = some d'.files ∧ Extends delta files delta' d'.files
  | .error failure => Extends delta files failure.delta d'.files

theorem applied_ok {e : Edit π Text} {delta delta' : AppliedPatchDelta π}
    {files files' : π → Option Text} (hfiles : d.files = files')
    (happly : e.apply files = some files')
    (hextends : Extends delta files delta' files') : Applied e delta files (.ok delta') d := by
  rw [Applied, hfiles]
  exact ⟨happly, hextends⟩

theorem applied_error {e : Edit π Text} {delta : AppliedPatchDelta π} {files : π → Option Text}
    {error : AnyError} {exact : Bool} (hexact : exact = true → delta.exact = true)
    (hfiles : d.files = files) :
    Applied e delta files (.error ⟨error, { delta with exact }⟩) d := by
  rw [Applied, hfiles]
  exact extends_same hexact

/-- Without faults and directories an edit that can be made does not fail. -/
def Completes {ε α : Type} (fault : ℕ → Option IoError) (d : Disk π) (e : Edit π Text)
    (r : Except ε α)
    (d' : Disk π) : Prop :=
  Smooth fault d →
    match r with
    | .ok _ => Smooth fault d'
    | .error _ => e.apply d.files = none

theorem applyAdd_ends (contents : Text) (delta : AppliedPatchDelta π) :
    (applyAdd host path contents delta).Ends (exec host fault) (fun r d' =>
      Applied (.add path contents) delta d.files r d' ∧
        Completes fault d (.add path contents) r d') d := by
  refine (readOptional_gives delta.exact).then fun ⟨content, exact⟩ d₁ ⟨h₁, hexact, hsmooth₁⟩ => ?_
  refine (writeRetry_gives contents).then fun x d₂ ⟨hwrote, hsmooth₂⟩ => ?_
  rw [h₁] at hwrote
  rcases hwrote with ⟨rfl, h₂⟩ | ⟨e, rfl, h₂⟩
  · exact ⟨applied_ok h₂ rfl (extends_push hexact), fun h => (hsmooth₂ (hsmooth₁ h)).2⟩
  · exact ⟨applied_error (fun h => by cases h) h₂, fun h => by cases (hsmooth₂ (hsmooth₁ h)).1⟩

theorem applyDelete_ends (delta : AppliedPatchDelta π) :
    (applyDelete host path delta).Ends (exec host fault) (fun r d' =>
      Applied (.delete path) delta d.files r d' ∧ Completes fault d (.delete path) r d') d := by
  refine (note_gives delta.exact).then fun exact d₁ ⟨h₁, hexact, hsmooth₁⟩ => ?_
  refine readFileText_gives.then fun x d₂ ⟨hread, h₂, hsmooth₂⟩ => ?_
  rw [h₁] at hread h₂
  refine (removeOrFail_ends "Failed to delete file" x.toOption _).bind ?_ ?_
  · rintro _ d₃ ⟨hsome, h₃, hsmooth₃⟩
    rw [h₂] at hsome h₃
    refine ⟨?_, fun h => hsmooth₃ (hsmooth₂ (hsmooth₁ h)).1⟩
    obtain ⟨content, hcontent⟩ := Option.isSome_iff_exists.1 hsome
    have happly : (Edit.delete path : Edit π Text).apply d.files =
        some (update d.files path none) := by
      rw [Edit.apply, Edit.writes, hcontent]
      rfl
    cases x with
    | ok text =>
      refine applied_ok h₃ happly (extends_push fun h => ?_)
      exact ⟨hexact (Bool.and_eq_true_iff.1 h).1, hread.symm⟩
    | error e =>
      -- the content is not recorded, and the record is not exact
      refine applied_ok h₃ happly ⟨[], (List.append_nil _).symm, fun h => ?_⟩
      exact absurd (Bool.and_eq_true_iff.1 h).2 Bool.false_ne_true
  · rintro failure d₃ ⟨h₃, hchanges, hfailure, hsmooth₃⟩
    refine ⟨⟨[], by rw [hchanges, List.append_nil], fun h => ?_⟩, fun h => ?_⟩
    · exact ⟨hexact (Bool.and_eq_true_iff.1 (hfailure h)).1, h₃.trans h₂⟩
    · have hnone := hsmooth₃ (hsmooth₂ (hsmooth₁ h)).1
      rw [h₂] at hnone
      rw [Edit.apply, Edit.writes, hnone]
      rfl

theorem applyMove_ends {dest : π} {f : Text → Option Text} {original new : Text}
    (hold : d.files path = some original) (hnew : f original = some new)
    (delta : AppliedPatchDelta π) :
    (applyMove host path dest original new delta).Ends (exec host fault) (fun r d' =>
      Applied (.move path dest f) delta d.files r d' ∧
        Completes fault d (.move path dest f) r d') d := by
  refine (readOptional_gives delta.exact).then fun ⟨content, exact⟩ d₁ ⟨h₁, hexact, hsmooth₁⟩ => ?_
  refine (writeRetry_gives new).then fun x d₂ ⟨hwrote, hsmooth₂⟩ => ?_
  rw [h₁] at hwrote
  rcases hwrote with ⟨rfl, h₂⟩ | ⟨e, rfl, h₂⟩
  · refine (removeOrFail_ends "Failed to remove original" (some original) _).bind ?_ ?_
    · rintro _ d₃ ⟨-, h₃, hsmooth₃⟩
      rw [h₂] at h₃
      have happly : (Edit.move path dest f).apply d.files =
          some (update (update d.files dest (some new)) path none) := by
        rw [Edit.apply, Edit.writes, hold, Option.bind_some, hnew]
        rfl
      refine ⟨applied_ok h₃ happly (extends_push fun h => ?_),
        fun h => hsmooth₃ (hsmooth₂ (hsmooth₁ h)).2⟩
      exact ⟨(hexact h).1, hold.symm, (hexact h).2⟩
    · rintro failure d₃ ⟨h₃, hchanges, hfailure, hsmooth₃⟩
      rw [h₂] at h₃
      refine ⟨⟨[⟨dest, .add new content⟩], hchanges, fun h => ?_⟩, fun h => ?_⟩
      · have hrecorded := hexact (hfailure h)
        rw [h₃]
        exact ⟨hrecorded.1, .single hrecorded.2⟩
      · -- the file is still there after the write
        have hnone := hsmooth₃ (hsmooth₂ (hsmooth₁ h)).2
        rw [h₂, update_apply] at hnone
        split at hnone
        · cases hnone
        · cases hold.symm.trans hnone
  · exact ⟨applied_error (fun h => by cases h) h₂, fun h => by cases (hsmooth₂ (hsmooth₁ h)).1⟩

theorem deriveNewContents_gives (chunks : List UpdateFileChunk) :
    (deriveNewContentsFromChunks host path chunks).Gives (exec host fault) (fun x d' =>
      d'.files = d.files ∧ (∀ original new, x = .ok (original, new) →
        d.files path = some original ∧ rewriting host path chunks original = some new) ∧
      (Smooth fault d → Smooth fault d' ∧
        ∀ e, x = .error e → (d.files path).bind (rewriting host path chunks) = none)) d := by
  refine readFileText_gives.bind fun x d' ⟨hread, hfiles, hsmooth⟩ => ?_
  cases x with
  | error e =>
    refine .pure ⟨hfiles, (fun _ _ h => by cases h), fun h => ⟨(hsmooth h).1, fun _ _ => ?_⟩⟩
    have hnone : d.files path = none :=
      Option.eq_none_iff_forall_ne_some.2 fun text htext => by cases (hsmooth h).2 text htext
    rw [hnone, Option.bind_none]
  | ok original =>
    have hread : d.files path = some original := hread
    rw [hread, Option.bind_some]
    dsimp only
    cases hnew : newContents (host.nativeText path) chunks original with
    | error e =>
      refine .pure ⟨hfiles, (fun _ _ h => by cases h), fun h => ⟨(hsmooth h).1, fun _ _ => ?_⟩⟩
      rw [rewriting, hnew]
      rfl
    | ok text =>
      refine .pure ⟨hfiles, fun original' new h => ?_,
        fun h => ⟨(hsmooth h).1, fun _ h => by cases h⟩⟩
      cases h
      exact ⟨rfl, rewriting_eq_some_iff.2 hnew⟩

/-- A hunk is applied as its edit, or it fails; the record extends the one before it. -/
def HunkApplied (host : Host π) (cwd : π) (hunk : Hunk) (delta : AppliedPatchDelta π)
    (files : π → Option Text) (r : Except (ApplyPatchFailure π) (AppliedPatchDelta π))
    (d' : Disk π) : Prop :=
  match r with
  | .ok delta' => ∃ e, hunk.edit host cwd = .ok e ∧ e.apply files = some d'.files ∧
      Extends delta files delta' d'.files
  | .error failure => Extends delta files failure.delta d'.files

theorem Applied.hunk {cwd : π} {hunk : Hunk} {e : Edit π Text} (he : hunk.edit host cwd = .ok e)
    {delta : AppliedPatchDelta π} {r : Except (ApplyPatchFailure π) (AppliedPatchDelta π)}
    {d' : Disk π} (h : Applied e delta d.files r d' ∧ Completes fault d e r d') :
    HunkApplied host cwd hunk delta d.files r d' ∧
      ∀ e, hunk.edit host cwd = .ok e → Completes fault d e r d' := by
  refine ⟨?_, fun e' he' => Except.ok.inj (he.symm.trans he') ▸ h.2⟩
  cases r with
  | ok delta' => exact ⟨e, he, h.1⟩
  | error failure => exact h.1

theorem applyUpdate_ends {cwd : π} {name : Text} (hpath : host.join cwd name = .ok path)
    (movePath : Option Text) (chunks : List UpdateFileChunk) (delta : AppliedPatchDelta π) :
    (applyUpdate host cwd path movePath chunks delta).Ends (exec host fault) (fun r d' =>
      HunkApplied host cwd (.updateFile name movePath chunks) delta d.files r d' ∧
        ∀ e, (Hunk.updateFile name movePath chunks).edit host cwd = .ok e →
          Completes fault d e r d') d := by
  refine (note_gives delta.exact).then ?_
  rintro exact d₁ ⟨h₁, hexact, hsmooth₁⟩
  refine (deriveNewContents_gives chunks).then ?_
  rintro x d₂ ⟨h₂, hderived, hsmooth₂⟩
  rw [h₁] at h₂ hderived hsmooth₂
  have hsame {error : AnyError} (hnone : Smooth fault d →
      ∀ dest, resolveDest host cwd movePath = .ok dest →
      (d.files path).bind (rewriting host path chunks) = none) :
      HunkApplied host cwd (.updateFile name movePath chunks) delta d.files
        (.error ⟨error, { delta with exact }⟩) d₂ ∧
        ∀ e, (Hunk.updateFile name movePath chunks).edit host cwd = .ok e →
          Completes fault d e
            (.error (⟨error, { delta with exact }⟩ : ApplyPatchFailure π) : Except _ Unit) d₂ := by
    rw [HunkApplied, h₂]
    refine ⟨extends_same hexact, fun e he h => ?_⟩
    obtain ⟨dest, hdest, rfl⟩ := (edit_update hpath).1 he
    cases dest <;> simp [updateEdit, Edit.apply, Edit.writes, hnone h _ hdest]
  cases x with
  | error e => exact hsame fun h _ _ => (hsmooth₂ (hsmooth₁ h)).2 e rfl
  | ok texts =>
    obtain ⟨original, new⟩ := texts
    obtain ⟨hold, hnew⟩ := hderived original new rfl
    cases movePath with
    | some dest =>
      change Prog.Ends (exec host fault) _ (orFail { delta with exact }
        ((host.join cwd dest).mapError _) >>= _) d₂
      cases hdest : host.join cwd dest with
      | error e => exact hsame fun _ _ h => by rw [resolveDest, hdest] at h; cases h
      | ok target =>
        have hresolved : resolveDest host cwd (some dest) = .ok (some target) := by
          rw [resolveDest, hdest]
          rfl
        refine (applyMove_ends (h₂ ▸ hold) hnew _).mono ?_
        rintro r d' ⟨happlied, hcompletes⟩
        rw [h₂] at happlied
        refine Applied.hunk ((edit_update hpath).2 ⟨_, hresolved, rfl⟩) ⟨?_, fun h => ?_⟩
        · cases r with
          | ok delta' => exact ⟨happlied.1, (extends_same hexact).trans happlied.2⟩
          | error failure => exact (extends_same hexact).trans happlied
        · have hcompletes := hcompletes (hsmooth₂ (hsmooth₁ h)).1
          rwa [h₂] at hcompletes
    | none =>
      have he : (Hunk.updateFile name none chunks).edit host cwd =
          .ok (.update path (rewriting host path chunks)) :=
        (edit_update hpath).2 ⟨none, rfl, rfl⟩
      refine (writeFile_gives new).then ?_
      rintro x d₃ ⟨hwrote, hsmooth₃⟩
      rw [h₂] at hwrote
      have hsmooth (h : Smooth fault d) := hsmooth₃ (hsmooth₂ (hsmooth₁ h)).1
      rcases hwrote with ⟨rfl, h₃⟩ | ⟨e, rfl, h₃⟩
      · have happly : (Edit.update path (rewriting host path chunks)).apply d.files =
            some (update d.files path (some new)) := by
          rw [Edit.apply, Edit.writes, hold, Option.bind_some, hnew]
          rfl
        exact Applied.hunk he ⟨applied_ok h₃ happly (extends_push fun h => ⟨hexact h, hold.symm⟩),
          fun h => (hsmooth h).2⟩
      · exact Applied.hunk he ⟨applied_error (fun h => by cases h) h₃,
          fun h => by cases (hsmooth h).1⟩

theorem Extends.refl (delta : AppliedPatchDelta π) (files : π → Option Text) :
    Extends delta files delta files :=
  ⟨[], (List.append_nil _).symm, fun h => ⟨h, rfl⟩⟩

theorem applyHunk_ends (cwd : π) (hunk : Hunk) (delta : AppliedPatchDelta π) :
    (applyHunk host cwd hunk delta).Ends (exec host fault) (fun r d' =>
      HunkApplied host cwd hunk delta d.files r d' ∧
        ∀ e, hunk.edit host cwd = .ok e → Completes fault d e r d') d := by
  cases hpath : hunk.resolvePath host cwd with
  | error e =>
    rw [applyHunk, hpath]
    refine ⟨Extends.refl delta d.files, fun e he => ?_⟩
    rw [Hunk.edit, hpath] at he
    cases he
  | ok path =>
    rw [applyHunk, hpath]
    cases hunk with
    | addFile name contents =>
      exact (applyAdd_ends contents delta).mono fun _ _ => Applied.hunk (edit_add hpath contents)
    | deleteFile name =>
      exact (applyDelete_ends delta).mono fun _ _ => Applied.hunk (edit_delete hpath)
    | updateFile name movePath chunks => exact applyUpdate_ends hpath movePath chunks delta

def editsOf (host : Host π) (cwd : π) (hunks : List Hunk) :
    Except PathUriParseError (List (Edit π Text)) :=
  hunks.mapM (Hunk.edit host cwd)

omit [DecidableEq π] in
theorem editsOf_eq_ok_iff {cwd : π} {hunks : List Hunk} {edits : List (Edit π Text)} :
    editsOf host cwd hunks = .ok edits ↔
      List.Forall₂ (fun hunk e => hunk.edit host cwd = .ok e) hunks edits := by
  rw [editsOf]
  induction hunks generalizing edits with
  | nil => cases edits <;> simp [pure, Except.pure]
  | cons hunk rest ih =>
    rw [List.mapM_cons]
    cases he : hunk.edit host cwd with
    | error e => cases edits <;> simp [bind, Except.bind, he]
    | ok e =>
      cases hrest : rest.mapM (Hunk.edit host cwd) with
      | error e => cases edits <;> simp [bind, Except.bind, ← ih, hrest, he]
      | ok edits' => cases edits <;> simp [bind, Except.bind, pure, Except.pure, ← ih, hrest, he]

theorem applyEach_ends (cwd : π) (hunks : List Hunk) (delta : AppliedPatchDelta π)
    (affected : AffectedPaths) :
    (applyEach host cwd hunks delta affected).Ends (exec host fault) (fun r d' =>
      match r with
      | .ok (delta', _) => (∃ edits, editsOf host cwd hunks = .ok edits ∧
          applyAll edits d.files = some d'.files) ∧ Extends delta d.files delta' d'.files
      | .error failure => Extends delta d.files failure.delta d'.files) d := by
  induction hunks generalizing delta affected d with
  | nil => exact ⟨⟨[], rfl, rfl⟩, Extends.refl delta d.files⟩
  | cons hunk rest ih =>
    refine (applyHunk_ends cwd hunk delta).bind ?_ fun _ _ h => h.1
    rintro delta₁ d₁ ⟨⟨e, he, happly, hextends⟩, -⟩
    refine (ih delta₁ (affected.with hunk)).mono fun r d' h => ?_
    cases r with
    | error failure => exact hextends.trans h
    | ok result =>
      obtain ⟨⟨edits, hedits, hrun⟩, hextends'⟩ := h
      refine ⟨⟨e :: edits, ?_, ?_⟩, hextends.trans hextends'⟩
      · exact editsOf_eq_ok_iff.2 (.cons he (editsOf_eq_ok_iff.1 hedits))
      · rw [applyAll, happly]
        exact hrun

end Hunks

end OmniDoer.ApplyPatch
