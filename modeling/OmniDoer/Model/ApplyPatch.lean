import OmniDoer.Library.Program
import OmniDoer.Library.Table
import OmniDoer.Library.RustText
import Mathlib.Data.List.Sort

/-! # Applying patches

The model of `codex-rs/apply-patch`: a patch is a list of hunks, which `invocation.rs` turns
into the changes that are shown for review, and which `lib.rs` applies to the files one after
another, keeping a record of what it has done. Every operation on the file system may fail.
The paths of a patch are resolved by `PathUri::join`, which is a parameter, as is the text of
a unified diff. The sandbox that is passed to every operation is left out. -/

namespace OmniDoer.ApplyPatch

open Rust Effects Tables

structure UpdateFileChunk where
  changeContext : Option Text := none
  oldLines : List Text
  newLines : List Text
  isEndOfFile : Bool := false
  deriving DecidableEq

inductive Hunk where
  | addFile (path contents : Text)
  | deleteFile (path : Text)
  | updateFile (path : Text) (movePath : Option Text) (chunks : List UpdateFileChunk)
  deriving DecidableEq

/-- The path that a hunk affects: the destination of a move. -/
def Hunk.path : Hunk → Text
  | .addFile path _ => path
  | .deleteFile path => path
  | .updateFile path movePath _ => movePath.getD path

/-- The path that a hunk names. -/
def Hunk.source : Hunk → Text
  | .addFile path _ => path
  | .deleteFile path => path
  | .updateFile path _ _ => path

inductive IoErrorKind where
  | notFound
  | invalidInput
  | other
  deriving DecidableEq

structure IoError where
  kind : IoErrorKind
  message : Text
  deriving DecidableEq

/-- `PathUriParseError`. -/
structure PathUriParseError where
  message : Text
  deriving DecidableEq

inductive ApplyPatchError where
  | ioError (context : Text) (source : IoError)
  | computeReplacements (message : Text)
  | pathUri (error : PathUriParseError)
  deriving DecidableEq

/-- An error with its context, as `anyhow` keeps it. -/
inductive AnyError where
  | message (text : Text)
  | io (context : Option Text) (source : IoError)
  | patch (error : ApplyPatchError)
  deriving DecidableEq

def ApplyPatchError.message : ApplyPatchError → Text
  | .ioError context source => context ++ ": ".toList ++ source.message
  | .computeReplacements message => message
  | .pathUri error => error.message

def AnyError.text : AnyError → Text
  | .message text => text
  | .io context source => context.getD source.message
  | .patch error => error.message

/-- What `apply_hunks` makes of an error. -/
def AnyError.toApplyPatchError : AnyError → ApplyPatchError
  | .io _ source => .ioError "I/O error".toList source
  | error => .ioError error.text ⟨.other, error.text⟩

/-- The code outside: paths of type `π`, and the text of a diff with one line of context. -/
structure Host (π : Type) where
  join : π → Text → Except PathUriParseError π
  nativeText : π → Text
  parent : π → Option π
  ancestors : π → List π
  unifiedDiff : Text → Text → Text

def Hunk.resolvePath {π : Type} (host : Host π) (cwd : π) (hunk : Hunk) :
    Except PathUriParseError π :=
  host.join cwd hunk.source

def normaliseChar (c : Char) : Char :=
  let n := c.toNat
  if (0x2010 ≤ n && n ≤ 0x2015) || n == 0x2212 then '-'
  else if 0x2018 ≤ n && n ≤ 0x201B then '\''
  else if 0x201C ≤ n && n ≤ 0x201F then '"'
  else if n == 0xA0 || (0x2002 ≤ n && n ≤ 0x200A) || n == 0x202F || n == 0x205F ||
      n == 0x3000 then ' '
  else c

def normalise (s : Text) : Text := (trim s).map normaliseChar

/-- The range `start..=lines.len().saturating_sub(pattern.len())` of the loops. -/
def searchRange (lines pattern : List Text) (start : ℕ) : List ℕ :=
  List.range' start (lines.length - pattern.length + 1 - start)

/-- The first index from `start` on at which the lines are the pattern, when both are seen
through `view`. -/
def seekBy (view : Text → Text) (lines pattern : List Text) (start : ℕ) : Option ℕ :=
  (searchRange lines pattern start).find? fun i =>
    ((lines.drop i).take pattern.length).map view == pattern.map view

def seekSequence (lines pattern : List Text) (start : ℕ) (eof : Bool) : Option ℕ :=
  if pattern = [] then some start
  else if lines.length < pattern.length then none
  else
    let searchStart := if eof then lines.length - pattern.length else start
    (seekBy id lines pattern searchStart).or
      ((seekBy trimEnd lines pattern searchStart).or
        ((seekBy trim lines pattern searchStart).or (seekBy normalise lines pattern searchStart)))

structure Replacement where
  start : ℕ
  oldLen : ℕ
  newLines : List Text
  deriving DecidableEq

/-- The line after the context of a chunk. -/
def seekContext (lines : List Text) (path : Text) (lineIndex : ℕ) :
    Option Text → Except ApplyPatchError ℕ
  | none => .ok lineIndex
  | some context =>
    match seekSequence lines [context] lineIndex false with
    | some i => .ok (i + 1)
    | none => .error (.computeReplacements
        ("Failed to find context '".toList ++ context ++ "' in ".toList ++ path))

/-- Whether the last line is the empty one. -/
def endsEmpty (lines : List Text) : Bool := lines.getLast? == some []

/-- Where the old lines of a chunk are, how many of them, and what takes their place. A last
empty line is left out when the lines cannot be found with it. -/
def seekOldLines (lines : List Text) (lineIndex : ℕ) (chunk : UpdateFileChunk) :
    Option Replacement :=
  match seekSequence lines chunk.oldLines lineIndex chunk.isEndOfFile with
  | some i => some ⟨i, chunk.oldLines.length, chunk.newLines⟩
  | none =>
    if endsEmpty chunk.oldLines then
      let newLines := if endsEmpty chunk.newLines then chunk.newLines.dropLast else chunk.newLines
      (seekSequence lines chunk.oldLines.dropLast lineIndex chunk.isEndOfFile).map fun i =>
        ⟨i, chunk.oldLines.dropLast.length, newLines⟩
    else none

/-- The replacements of the chunks, from a line on. -/
def chunkReplacements (lines : List Text) (path : Text) :
    List UpdateFileChunk → ℕ → Except ApplyPatchError (List Replacement)
  | [], _ => .ok []
  | chunk :: rest, lineIndex => do
      let lineIndex ← seekContext lines path lineIndex chunk.changeContext
      if chunk.oldLines = [] then
        let insertion := if endsEmpty lines then lines.length - 1 else lines.length
        let replacements ← chunkReplacements lines path rest lineIndex
        return ⟨insertion, 0, chunk.newLines⟩ :: replacements
      else
        match seekOldLines lines lineIndex chunk with
        | some r =>
          let replacements ← chunkReplacements lines path rest (r.start + r.oldLen)
          return r :: replacements
        | none => .error (.computeReplacements
            ("Failed to find expected lines in ".toList ++ path ++ ":\n".toList ++
              joinNewlines chunk.oldLines))

def computeReplacements (lines : List Text) (path : Text) (chunks : List UpdateFileChunk) :
    Except ApplyPatchError (List Replacement) :=
  (List.insertionSort fun a b => a.start ≤ b.start) <$> chunkReplacements lines path chunks 0

def applyReplacement (r : Replacement) (lines : List Text) : List Text :=
  lines.take r.start ++ r.newLines ++ lines.drop (r.start + r.oldLen)

/-- The last replacement comes first, so that it moves no other one. -/
def applyReplacements (lines : List Text) (replacements : List Replacement) : List Text :=
  replacements.foldr applyReplacement lines

/-- What the chunks make of the contents of a file. -/
def newContents (path : Text) (chunks : List UpdateFileChunk) (original : Text) :
    Except ApplyPatchError Text := do
  let split := splitNewlines original
  let lines := if endsEmpty split then split.dropLast else split
  let replacements ← computeReplacements lines path chunks
  let new := applyReplacements lines replacements
  return joinNewlines (if endsEmpty new then new else new ++ [[]])

structure FileMetadata where
  isDirectory : Bool
  isFile : Bool
  isSymlink : Bool

inductive FsOp (π : Type) where
  | readFileText (path : π)
  | writeFile (path : π) (contents : Text)
  | createDirectory (path : π)
  | getMetadata (path : π)
  | remove (path : π)

variable {π : Type}

@[reducible] def FsOp.Ans : FsOp π → Type
  | .readFileText _ => Except IoError Text
  | .getMetadata _ => Except IoError FileMetadata
  | .writeFile .. | .createDirectory _ | .remove _ => Except IoError Unit

/-- The text files and the directories, and how many operations there were. -/
structure Disk (π : Type) where
  files : π → Option Text
  directories : π → Bool
  ops : ℕ := 0

def missing : IoError := ⟨.notFound, "No such file or directory".toList⟩

def refused (message : Text) : IoError := ⟨.other, message⟩

def isADirectory : IoError := refused "Is a directory".toList

/-- The error where there is no file. -/
def noFile (d : Disk π) (path : π) : IoError := if d.directories path then isADirectory else missing

variable [DecidableEq π]

/-- An operation that meets no fault. -/
def perform (host : Host π) : (o : FsOp π) → Disk π → o.Ans × Disk π
  | .readFileText path, d =>
    match d.files path with
    | some text => (.ok text, d)
    | none => (.error (noFile d path), d)
  | .writeFile path contents, d =>
    if d.directories path then (.error isADirectory, d)
    else (.ok (), { d with files := Function.update d.files path (some contents) })
  | .createDirectory path, d =>
    if (path :: host.ancestors path).any fun p => (d.files p).isSome then
      (.error (refused "Not a directory".toList), d)
    else (.ok (),
      { d with directories := fun p => d.directories p || p ∈ path :: host.ancestors path })
  | .getMetadata path, d =>
    match d.files path with
    | some _ => (.ok ⟨false, true, false⟩, d)
    | none =>
      (if d.directories path then .ok ⟨true, false, false⟩ else .error missing, d)
  | .remove path, d =>
    match d.files path with
    | some _ => (.ok (), { d with files := Function.update d.files path none })
    | none => (.error (noFile d path), d)

/-- The answer of an operation that meets a fault. A fault of a write may be that a parent of
the file is missing; a file that is there is not reported as missing. -/
def FsOp.failed (error : IoError) : (o : FsOp π) → o.Ans
  | .readFileText _ => .error (refused error.message)
  | .getMetadata _ => .error (refused error.message)
  | .writeFile .. => .error error
  | .createDirectory _ => .error error
  | .remove _ => .error error

/-- Any operation may meet a fault, and then it changes nothing. -/
def exec (host : Host π) (fault : ℕ → Option IoError) (o : FsOp π) (d : Disk π) : o.Ans × Disk π :=
  match fault d.ops with
  | some error => (o.failed error, { d with ops := d.ops + 1 })
  | none => perform host o { d with ops := d.ops + 1 }

inductive AppliedPatchFileChange (π : Type) where
  | add (content : Text) (overwrittenContent : Option Text)
  | delete (content : Text)
  | update (movePath : Option π) (oldContent : Text) (overwrittenMoveContent : Option Text)
      (newContent : Text)
  deriving DecidableEq

structure AppliedPatchChange (π : Type) where
  path : π
  change : AppliedPatchFileChange π
  deriving DecidableEq

structure AppliedPatchDelta (π : Type) where
  changes : List (AppliedPatchChange π)
  exact : Bool
  deriving DecidableEq

def AppliedPatchDelta.empty : AppliedPatchDelta π := ⟨[], true⟩

def AppliedPatchDelta.push (delta : AppliedPatchDelta π) (path : π)
    (change : AppliedPatchFileChange π) : AppliedPatchDelta π :=
  { delta with changes := delta.changes ++ [⟨path, change⟩] }

structure ApplyPatchFailure (π : Type) where
  error : AnyError
  delta : AppliedPatchDelta π

structure AffectedPaths where
  added : List Text := []
  modified : List Text := []
  deleted : List Text := []

/-- Programs that may fail with an error and the record of what was done before it. -/
abbrev PatchProg (π α : Type) := Prog (FsOp π) FsOp.Ans (ApplyPatchFailure π) α

section Apply

variable {π : Type} (host : Host π)

def readFileText (path : π) : PatchProg π (Except IoError Text) := .op (.readFileText path) .pure

def writeFile (path : π) (contents : Text) : PatchProg π (Except IoError Unit) :=
  .op (.writeFile path contents) .pure

def createDirectory (path : π) : PatchProg π (Except IoError Unit) :=
  .op (.createDirectory path) .pure

def getMetadata (path : π) : PatchProg π (Except IoError FileMetadata) :=
  .op (.getMetadata path) .pure

def removeFile (path : π) : PatchProg π (Except IoError Unit) := .op (.remove path) .pure

/-- Whether the record is still exact when it holds the old content of the path. -/
def noteExistingPathDeltaSupport (path : π) (exact : Bool) : PatchProg π Bool := do
  match ← getMetadata path with
  | .ok metadata => return exact && (metadata.isFile && !metadata.isSymlink)
  | .error e => return exact && e.kind == .notFound

def readOptionalFileTextForDelta (path : π) (exact : Bool) : PatchProg π (Option Text × Bool) := do
  let exact ← noteExistingPathDeltaSupport path exact
  match ← readFileText path with
  | .ok content => return (some content, exact)
  | .error e => return (none, exact && e.kind == .notFound)

def removeFailureWasSideEffectFree (path : π) : Option Text → PatchProg π Bool
  | some expected => do
      match ← readFileText path with
      | .ok content => return content == expected
      | .error _ => return false
  | none => return false

def ensureNotDirectory (path : π) : PatchProg π (Except IoError Unit) := do
  match ← getMetadata path with
  | .ok metadata =>
    return if metadata.isDirectory then .error ⟨.invalidInput,
        "path is a directory".toList⟩ else .ok ()
  | .error e => return .error e

def failedTo (what : String) (path : π) : Option Text :=
  some (what.toList ++ " ".toList ++ host.nativeText path)

/-- The result of a write, with its context. -/
def written (path : π) : Except IoError Unit → Except AnyError Unit
  | .ok () => .ok ()
  | .error e => .error (.io (failedTo host "Failed to write file" path) e)

def writeFileWithMissingParentRetry (path : π) (contents : Text) :
    PatchProg π (Except AnyError Unit) := do
  match ← writeFile path contents with
  | .ok () => return .ok ()
  | .error e =>
    if e.kind = .notFound then
      match host.parent path with
      | some parent =>
        match ← createDirectory parent with
        | .ok () => return written host path (← writeFile path contents)
        | .error e =>
          return .error (.io (failedTo host "Failed to create parent directories for" path) e)
      | none => return written host path (← writeFile path contents)
    else return written host path (.error e)

/-- `result?` where the record is kept. -/
def orFail {α : Type} (delta : AppliedPatchDelta π) : Except AnyError α → PatchProg π α
  | .ok a => .pure a
  | .error error => .raise ⟨error, delta⟩

/-- A write that fails may have changed the file. -/
def tryWrite (delta : AppliedPatchDelta π) : Except AnyError Unit → PatchProg π Unit :=
  orFail { delta with exact := false }

/-- `remove`, after which the record says whether the file is as it was. -/
def removeOrFail (what : String) (path : π) (expected : Option Text) (delta : AppliedPatchDelta π) :
    PatchProg π Unit := do
  match ← ensureNotDirectory path with
  | .error e => .raise ⟨.io (failedTo host what path) e, delta⟩
  | .ok () =>
    match ← removeFile path with
    | .ok () => return ()
    | .error e =>
      let free ← removeFailureWasSideEffectFree path expected
      .raise ⟨.io (failedTo host what path) e, { delta with exact := delta.exact && free }⟩

/-- What a file holds and what the chunks make of it. -/
def deriveNewContentsFromChunks (path : π) (chunks : List UpdateFileChunk) :
    PatchProg π (Except ApplyPatchError (Text × Text)) := do
  match ← readFileText path with
  | .error e => return .error (.ioError
      ("Failed to read file to update ".toList ++ host.nativeText path) e)
  | .ok original =>
    return (fun new => (original, new)) <$> newContents (host.nativeText path) chunks original

def applyAdd (path : π) (contents : Text) (delta : AppliedPatchDelta π) :
    PatchProg π (AppliedPatchDelta π) := do
  let (overwritten, exact) ← readOptionalFileTextForDelta path delta.exact
  let delta := { delta with exact }
  tryWrite delta (← writeFileWithMissingParentRetry host path contents)
  return delta.push path (.add contents overwritten)

def applyDelete (path : π) (delta : AppliedPatchDelta π) : PatchProg π (AppliedPatchDelta π) := do
  let exact ← noteExistingPathDeltaSupport path delta.exact
  let content := (← readFileText path).toOption
  let delta := { delta with exact := exact && content.isSome }
  removeOrFail host "Failed to delete file" path content delta
  return match content with
    | some content => delta.push path (.delete content)
    | none => delta

/-- The file is written to the destination, which is recorded, and then the original is
removed and the record says that the file was moved. -/
def applyMove (path dest : π) (original new : Text) (delta : AppliedPatchDelta π) :
    PatchProg π (AppliedPatchDelta π) := do
  let (overwritten, exact) ← readOptionalFileTextForDelta dest delta.exact
  let delta := { delta with exact }
  tryWrite delta (← writeFileWithMissingParentRetry host dest new)
  removeOrFail host "Failed to remove original" path (some original)
    (delta.push dest (.add new overwritten))
  return delta.push path (.update (some dest) original overwritten new)

def applyUpdate (cwd path : π) (movePath : Option Text) (chunks : List UpdateFileChunk)
    (delta : AppliedPatchDelta π) : PatchProg π (AppliedPatchDelta π) := do
  let exact ← noteExistingPathDeltaSupport path delta.exact
  let delta := { delta with exact }
  let (original, new) ← orFail delta
    ((← deriveNewContentsFromChunks host path chunks).mapError .patch)
  match movePath with
  | some dest =>
    let dest ← orFail delta ((host.join cwd dest).mapError (.patch ∘ .pathUri))
    applyMove host path dest original new delta
  | none =>
    tryWrite delta (written host path (← writeFile path new))
    return delta.push path (.update none original none new)

def applyHunk (cwd : π) (hunk : Hunk) (delta : AppliedPatchDelta π) :
    PatchProg π (AppliedPatchDelta π) := do
  let path ← orFail delta ((hunk.resolvePath host cwd).mapError (.patch ∘ .pathUri))
  match hunk with
  | .addFile _ contents => applyAdd host path contents delta
  | .deleteFile _ => applyDelete host path delta
  | .updateFile _ movePath chunks => applyUpdate host cwd path movePath chunks delta

/-- The summary with a hunk that was applied. -/
def AffectedPaths.with (affected : AffectedPaths) (hunk : Hunk) : AffectedPaths :=
  match hunk with
  | .addFile .. => { affected with added := affected.added ++ [hunk.path] }
  | .deleteFile _ => { affected with deleted := affected.deleted ++ [hunk.path] }
  | .updateFile .. => { affected with modified := affected.modified ++ [hunk.path] }

/-- The loop over the hunks. -/
def applyEach (cwd : π) : List Hunk → AppliedPatchDelta π → AffectedPaths →
    PatchProg π (AppliedPatchDelta π × AffectedPaths)
  | [], delta, affected => return (delta, affected)
  | hunk :: rest, delta, affected => do
      let delta ← applyHunk host cwd hunk delta
      applyEach cwd rest delta (affected.with hunk)

def applyHunksToFiles (cwd : π) (hunks : List Hunk) :
    PatchProg π (AppliedPatchDelta π × AffectedPaths) :=
  if hunks = [] then .raise ⟨.message "No files were modified.".toList, .empty⟩
  else applyEach host cwd hunks .empty {}

/-- `apply_hunks`: the record, or an error with the record of what was done before it. What it
prints is left out. -/
def applyHunks (cwd : π) (hunks : List Hunk) :
    PatchProg π (Except (ApplyPatchError × AppliedPatchDelta π) (AppliedPatchDelta π)) :=
  Prog.handle ((fun result => .ok result.1) <$> applyHunksToFiles host cwd hunks) fun failure =>
    .pure (.error (failure.error.toApplyPatchError, failure.delta))

end Apply

inductive ApplyPatchFileChange (π : Type) where
  | add (content : Text)
  | delete (content : Text)
  | update (unifiedDiff : Text) (movePath : Option π) (newContent : Text)
  deriving DecidableEq

/-- The changes by their paths. -/
abbrev Changes (π : Type) := Table (Prod.fst : π × ApplyPatchFileChange π → π)

structure ApplyPatchAction (π : Type) where
  changes : Changes π
  patch : Text
  cwd : π

structure ApplyPatchArgs where
  patch : Text
  hunks : List Hunk
  workdir : Option Text := none
  environmentId : Option Text := none

abbrev VerifyProg (π α : Type) := Prog (FsOp π) FsOp.Ans ApplyPatchError α

section Verify

variable (host : Host π)

def readForReview (context : String) (path : π) : VerifyProg π Text :=
  .op (.readFileText path) fun
    | .ok text => .pure text
    | .error e => .raise (.ioError (context.toList ++ " ".toList ++ host.nativeText path) e)

/-- The destination of a move, if there is one. -/
def resolveDest (cwd : π) : Option Text → Except PathUriParseError (Option π)
  | some dest => some <$> host.join cwd dest
  | none => .ok none

/-- The change that a hunk asks for. -/
def reviewHunk (cwd path : π) : Hunk → VerifyProg π (ApplyPatchFileChange π)
  | .addFile _ contents => return .add contents
  | .deleteFile _ => return .delete (← readForReview host "Failed to read" path)
  | .updateFile _ movePath chunks => do
      let original ← readForReview host "Failed to read file to update" path
      let new ← Prog.ofExcept (newContents (host.nativeText path) chunks original)
      let dest ← Prog.ofExcept ((resolveDest host cwd movePath).mapError .pathUri)
      return .update (host.unifiedDiff original new) dest new

/-- The loop over the hunks. A later change of a path takes the place of an earlier one. -/
def reviewEach (cwd : π) : List Hunk → Changes π → VerifyProg π (Changes π)
  | [], changes => return changes
  | hunk :: rest, changes => do
      let path ← Prog.ofExcept ((hunk.resolvePath host cwd).mapError .pathUri)
      let change ← reviewHunk host cwd path hunk
      reviewEach cwd rest (changes.insert (path, change))

def effectiveCwd (cwd : π) : Option Text → Except PathUriParseError π
  | some dir => host.join cwd dir
  | none => .ok cwd

def tryVerifyApplyPatchArgs (args : ApplyPatchArgs) (cwd : π) :
    VerifyProg π (ApplyPatchAction π) := do
  let cwd ← Prog.ofExcept ((effectiveCwd host cwd args.workdir).mapError .pathUri)
  let changes ← reviewEach host cwd args.hunks .empty
  return ⟨changes, args.patch, cwd⟩

end Verify

/-- The components of a native path. -/
inductive Component where
  | root (text : Text)
  | curDir
  | parentDir
  | normal (text : Text)
  deriving DecidableEq

/-- `PathBuf::pop`, which leaves a root as it is. -/
def popComponent (path : List Component) : List Component :=
  match path.getLast? with
  | some (.normal _) => path.dropLast
  | _ => path

def normalizeComponents (path : List Component) : List Component :=
  path.foldl (fun out component =>
    match component with
    | .parentDir => popComponent out
    | .curDir => out
    | other => out ++ [other]) []

/-- `FileSystemSandboxPolicy`, for one working directory, where full access to the disk includes
every path. -/
structure WritePolicy where
  hasFullDiskWriteAccess : Bool
  canWritePath : List Component → Bool
  canWritePath_of_full : hasFullDiskWriteAccess = true → ∀ path, canWritePath path = true

section Safety

variable (toAbsPath : π → Option (List Component)) (policy : WritePolicy)

def isPathWritable (path : π) : Bool :=
  match toAbsPath path with
  | some abs => policy.canWritePath (normalizeComponents abs)
  | none => false

/-- The paths that a change names. -/
def filePathsOf : π × ApplyPatchFileChange π → List π
  | (path, .update _ (some dest) _) => [path, dest]
  | (path, _) => [path]

def filePathsForAction (action : ApplyPatchAction π) : List π :=
  action.changes.rows.flatMap filePathsOf

def isWritePatchConstrainedToWritablePaths (action : ApplyPatchAction π) (cwd : π) : Bool :=
  if policy.hasFullDiskWriteAccess then true
  else if (toAbsPath cwd).isNone then false
  else action.changes.rows.all fun row =>
    match row with
    | (path, .add _) => isPathWritable toAbsPath policy path
    | (path, .delete _) => isPathWritable toAbsPath policy path
    | (path, .update _ movePath _) =>
      isPathWritable toAbsPath policy path && movePath.all (isPathWritable toAbsPath policy)

end Safety

end OmniDoer.ApplyPatch
