import OmniDoer.Model.AbsolutePath
import Mathlib.Data.Prod.Lex
import Mathlib.Order.Defs.LinearOrder
import Mathlib.Data.List.Infix

/-! # File system policies

The model of `codex-rs/protocol/src/permissions.rs` and of `WritableRoot` in `protocol.rs`: which
access a policy gives to a path, and the writable roots that a sandbox enforces. -/

namespace OmniDoer.Permissions

open Rust Unix

inductive NetworkSandboxPolicy where
  | restricted
  | enabled
  deriving DecidableEq

inductive FileSystemAccessMode where
  | read
  | write
  | deny
  deriving DecidableEq

namespace FileSystemAccessMode

def rank : FileSystemAccessMode → ℕ
  | .read => 0
  | .write => 1
  | .deny => 2

theorem rank_injective : Function.Injective rank := by
  intro a b h
  cases a <;> cases b <;> first | rfl | cases h

/-- The order of conflicts: `deny` beats `write`, and `write` beats `read`. -/
instance : LinearOrder FileSystemAccessMode := LinearOrder.lift' rank rank_injective

def canRead (access : FileSystemAccessMode) : Bool := access ≠ .deny

def canWrite (access : FileSystemAccessMode) : Bool := access = .write

end FileSystemAccessMode

inductive FileSystemSpecialPath where
  | root
  | minimal
  | projectRoots (subpath : Option Text)
  | tmpdir
  | slashTmp
  | unknown (path : Text) (subpath : Option Text)
  deriving DecidableEq

inductive FileSystemPath where
  | path (path : AbsolutePath)
  | globPattern (pattern : Text)
  | special (value : FileSystemSpecialPath)
  deriving DecidableEq

inductive MissingPathBehavior where
  | skip
  deriving DecidableEq

structure FileSystemSandboxEntry where
  path : FileSystemPath
  access : FileSystemAccessMode
  missingPathBehavior : Option MissingPathBehavior := none
  deriving DecidableEq

inductive FileSystemSandboxKind where
  | restricted
  | unrestricted
  | externalSandbox
  deriving DecidableEq

structure FileSystemSandboxPolicy where
  kind : FileSystemSandboxKind
  globScanMaxDepth : Option ℕ := none
  entries : List FileSystemSandboxEntry

structure ResolvedFileSystemEntry where
  path : AbsolutePath
  access : FileSystemAccessMode
  deriving DecidableEq

/-- What the process knows about its surroundings, and the test that the crate `globset` compiles a
pattern to, unless the pattern is malformed. -/
structure Env extends PathEnv where
  tmpdirVar : Option Text
  slashTmpIsDir : Bool
  buildGlobMatcher : Text → Option (Text → Bool)

def slashTmp : AbsolutePath := ["tmp".toList]

section Resolve

variable (env : Env)

def resolveFileSystemSpecialPath (value : FileSystemSpecialPath) (cwd : AbsolutePath) :
    Option AbsolutePath :=
  match value with
  | .root | .minimal | .unknown _ _ => none
  | .projectRoots (some subpath) => some (env.resolveAgainst subpath cwd)
  | .projectRoots none => some cwd
  | .tmpdir =>
    match env.tmpdirVar with
    | none | some [] => none
    | some tmpdir => env.fromAbsolutePath tmpdir
  | .slashTmp => if env.slashTmpIsDir then some slashTmp else none

def resolveFileSystemPath (path : FileSystemPath) (cwd : AbsolutePath) : Option AbsolutePath :=
  match path with
  | .path path => some path
  | .globPattern _ => none
  | .special value => resolveFileSystemSpecialPath env value cwd

/-- The root of an entry is the root of the working directory. -/
def resolveEntryPath (path : FileSystemPath) (cwd : AbsolutePath) : Option AbsolutePath :=
  match path with
  | .special .root => some []
  | _ => resolveFileSystemPath env path cwd

end Resolve

def ResolvedFileSystemEntry.precedence (entry : ResolvedFileSystemEntry) :
    ℕ ×ₗ FileSystemAccessMode :=
  toLex (entry.path.length + 1, entry.access)

/-- `max_by_key`: the last of the entries with the highest precedence. -/
def mostSpecific : List ResolvedFileSystemEntry → Option ResolvedFileSystemEntry
  | [] => none
  | entry :: rest =>
    some (rest.foldl (fun best e => if best.precedence ≤ e.precedence then e else best) entry)

def protectedMetadataPathNames : List Text := [".git".toList, ".agents".toList, ".codex".toList]

def metadataPathName (name : Text) : Option Text := protectedMetadataPathNames.find? (· = name)

def specialPathsShareTarget (left right : FileSystemSpecialPath) : Bool :=
  match left, right with
  | .root, .root | .minimal, .minimal | .tmpdir, .tmpdir | .slashTmp, .slashTmp => true
  | .projectRoots left, .projectRoots right => left = right
  | .unknown left leftSubpath, .unknown right rightSubpath =>
    left = right && leftSubpath = rightSubpath
  | _, _ => false

def specialPathMatchesAbsolutePath (value : FileSystemSpecialPath) (path : AbsolutePath) : Bool :=
  match value with
  | .root => path = []
  | .slashTmp => path = slashTmp
  | _ => false

def fileSystemPathsShareTarget (left right : FileSystemPath) : Bool :=
  match left, right with
  | .path left, .path right => left = right
  | .special left, .special right => specialPathsShareTarget left right
  | .path path, .special value | .special value, .path path =>
    specialPathMatchesAbsolutePath value path
  | .globPattern left, .globPattern right => left = right
  | .globPattern _, _ | _, .globPattern _ => false

/-- `if !entries.contains(&entry) { entries.push(entry) }`. -/
def pushUnique (entries : List FileSystemSandboxEntry) (entry : FileSystemSandboxEntry) :
    List FileSystemSandboxEntry :=
  if entry ∈ entries then entries else entries ++ [entry]

namespace FileSystemSandboxPolicy

def restricted (entries : List FileSystemSandboxEntry) : FileSystemSandboxPolicy :=
  { kind := .restricted, entries }

def unrestricted : FileSystemSandboxPolicy := { kind := .unrestricted, entries := [] }

def externalSandbox : FileSystemSandboxPolicy := { kind := .externalSandbox, entries := [] }

variable (policy : FileSystemSandboxPolicy)

def hasRootAccess (predicate : FileSystemAccessMode → Bool) : Bool :=
  policy.kind = .restricted && policy.entries.any fun entry =>
    entry.path = .special .root && predicate entry.access

def hasDeniedReadRestrictions : Bool :=
  policy.kind = .restricted && policy.entries.any fun entry => entry.access = .deny

def hasFullDiskReadAccess : Bool :=
  match policy.kind with
  | .unrestricted | .externalSandbox => true
  | .restricted =>
    policy.hasRootAccess FileSystemAccessMode.canRead && !policy.hasDeniedReadRestrictions

def hasSameTargetWriteOverride (entry : FileSystemSandboxEntry) : Bool :=
  policy.entries.any fun candidate =>
    candidate.access.canWrite && entry.access < candidate.access &&
      fileSystemPathsShareTarget candidate.path entry.path

/-- Whether an entry takes write access away below a writable root. -/
def isWriteNarrowing (entry : FileSystemSandboxEntry) : Bool :=
  if entry.access.canWrite then false
  else
    match entry.path with
    | .path _ => !policy.hasSameTargetWriteOverride entry
    | .globPattern _ => true
    | .special .root => entry.access = .deny
    | .special .minimal | .special (.unknown _ _) => false
    | .special _ => !policy.hasSameTargetWriteOverride entry

def hasWriteNarrowingEntries : Bool :=
  policy.kind = .restricted && policy.entries.any policy.isWriteNarrowing

def hasFullDiskWriteAccess : Bool :=
  match policy.kind with
  | .unrestricted | .externalSandbox => true
  | .restricted =>
    policy.hasRootAccess FileSystemAccessMode.canWrite && !policy.hasWriteNarrowingEntries

section Access

variable (env : Env)

def resolvedEntriesWithCwd (cwd : AbsolutePath) : List ResolvedFileSystemEntry :=
  policy.entries.filterMap fun entry =>
    (resolveEntryPath env entry.path cwd).map fun path => ⟨path, entry.access⟩

def resolveAccessWithCwd (path cwd : AbsolutePath) : FileSystemAccessMode :=
  match policy.kind with
  | .unrestricted | .externalSandbox => .write
  | .restricted =>
    match mostSpecific
      ((policy.resolvedEntriesWithCwd env cwd).filter (·.path.isPrefixOf path)) with
    | some entry => entry.access
    | none => .deny

def canReadPathWithCwd (path cwd : AbsolutePath) : Bool :=
  (policy.resolveAccessWithCwd env path cwd).canRead

/-- The protected directory that a path lies in, below an entry with write access. -/
def metadataChildOfWritableRoot (target cwd : AbsolutePath) : Option (AbsolutePath × Text) :=
  ((policy.resolvedEntriesWithCwd env cwd).filter (·.access.canWrite)).findSome? fun entry =>
    if entry.path.isPrefixOf target then do
      let name ← metadataPathName (← (target.drop entry.path.length).head?)
      return (entry.path ++ [name], name)
    else none

def hasExplicitWriteEntryForMetadataPath (protectedMetadataPath target cwd : AbsolutePath) : Bool :=
  (policy.resolvedEntriesWithCwd env cwd).any fun entry =>
    entry.access.canWrite && entry.path.isPrefixOf target &&
      protectedMetadataPath.isPrefixOf entry.path

def isMetadataWriteDenied (path cwd : AbsolutePath) : Bool :=
  if policy.kind ≠ .restricted then false
  else
    match policy.metadataChildOfWritableRoot env path cwd with
    | none => false
    | some (protectedMetadataPath, _) =>
      !policy.hasExplicitWriteEntryForMetadataPath env protectedMetadataPath path cwd

def canWritePathWithCwd (path cwd : AbsolutePath) : Bool :=
  if !(policy.resolveAccessWithCwd env path cwd).canWrite then false
  else if policy.hasFullDiskWriteAccess then true
  else !policy.isMetadataWriteDenied env path cwd

def push (path : AbsolutePath) (access : FileSystemAccessMode) : FileSystemSandboxPolicy :=
  { policy with entries := policy.entries ++ [⟨.path path, access, none⟩] }

def withAdditionalReadableRoots (cwd : AbsolutePath) (roots : List AbsolutePath) :
    FileSystemSandboxPolicy :=
  if policy.hasFullDiskReadAccess then policy
  else
    roots.foldl (fun policy path =>
      if policy.canReadPathWithCwd env path cwd then policy else policy.push path .read) policy

def withAdditionalWritableRoots (cwd : AbsolutePath) (roots : List AbsolutePath) :
    FileSystemSandboxPolicy :=
  roots.foldl (fun policy path =>
    if policy.canWritePathWithCwd env path cwd then policy else policy.push path .write) policy

end Access

def preserveDenyReadRestrictionsFrom (existing : FileSystemSandboxPolicy) :
    FileSystemSandboxPolicy :=
  let denyEntries := existing.entries.filter (·.access = .deny)
  let policy :=
    if policy.kind = .unrestricted ∧
        denyEntries ≠ [] then restricted [⟨.special .root, .write, none⟩] else policy
  if policy.kind ≠ .restricted then policy
  else
    { policy with
      globScanMaxDepth := policy.globScanMaxDepth.or existing.globScanMaxDepth
      entries := denyEntries.foldl pushUnique policy.entries }

end FileSystemSandboxPolicy

inductive FileKind where
  | file (contents : Option Text)
  | dir
  | other
  deriving DecidableEq

/-- What system calls tell about paths. -/
structure FileSystem where
  kindOf : AbsolutePath → Option FileKind
  isSymlink : AbsolutePath → Bool
  canonicalize : AbsolutePath → Option AbsolutePath

namespace FileSystem

variable (fs : FileSystem)

/-- Whether there is something at a path, a symbolic link included. -/
def present (path : AbsolutePath) : Bool := (fs.kindOf path).isSome || fs.isSymlink path

def isFile (path : AbsolutePath) : Bool :=
  match fs.kindOf path with
  | some (.file _) => true
  | _ => false

def isDir (path : AbsolutePath) : Bool := fs.kindOf path = some .dir

/-- A path and the directories above it. -/
def ancestors (path : AbsolutePath) : List AbsolutePath := path.inits.reverse

def shouldPreserveLogicalPath (logical : AbsolutePath) : Bool :=
  (ancestors logical).any fun ancestor => fs.isSymlink ancestor && 2 ≤ ancestor.length

def canonicalizePreservingSymlinks (path : AbsolutePath) : AbsolutePath :=
  match fs.canonicalize path with
  | some canonical =>
    if fs.shouldPreserveLogicalPath path ∧ canonical ≠ path then path else canonical
  | none => path

def normalizeEffectiveAbsolutePath (path : AbsolutePath) : AbsolutePath :=
  match (ancestors path).find? fs.present with
  | some ancestor => fs.canonicalizePreservingSymlinks ancestor ++ path.drop ancestor.length
  | none => path

end FileSystem

structure WritableRoot where
  root : AbsolutePath
  readOnlySubpaths : List AbsolutePath
  protectedMetadataNames : List Text

namespace WritableRoot

def pathContainsProtectedMetadataName (writable : WritableRoot) (path : AbsolutePath) : Bool :=
  writable.root.isPrefixOf path &&
    (path.drop writable.root.length).head?.any (· ∈ writable.protectedMetadataNames)

def isPathWritable (writable : WritableRoot) (path : AbsolutePath) : Bool :=
  writable.root.isPrefixOf path && !writable.readOnlySubpaths.any (·.isPrefixOf path) &&
    !writable.pathContainsProtectedMetadataName path

end WritableRoot

/-- The first of each path. -/
def dedupPaths : List AbsolutePath → List AbsolutePath → List AbsolutePath
  | _, [] => []
  | seen, path :: rest =>
    if path ∈ seen then dedupPaths seen rest else path :: dedupPaths (path :: seen) rest

section WritableRoots

variable (env : Env) (fs : FileSystem)

/-- `split_once(':')`. -/
def splitOnceColon (t : Text) : Option (Text × Text) :=
  if ':' ∈ t then some (t.takeWhile (· ≠ ':'), (t.dropWhile (· ≠ ':')).tail) else none

def resolveGitdirFromFile (dotGit : AbsolutePath) : Option AbsolutePath := do
  let .file (some contents) ← fs.kindOf dotGit | none
  let (label, gitdirRaw) ← splitOnceColon (trim contents)
  if trim label ≠ "gitdir".toList then none
  else if trim gitdirRaw = [] then none
  else
    let gitdirPath := env.resolveAgainst (trim gitdirRaw) dotGit.dropLast
    if (fs.kindOf gitdirPath).isSome then some gitdirPath else none

def defaultReadOnlySubpathsForWritableRoot (writableRoot : AbsolutePath)
    (protectMissingDotCodex : Bool) : List AbsolutePath :=
  let topLevelGit := writableRoot ++ [".git".toList]
  let topLevelAgents := writableRoot ++ [".agents".toList]
  let topLevelCodex := writableRoot ++ [".codex".toList]
  dedupPaths [] <|
    (if fs.isDir topLevelGit || fs.isFile topLevelGit then
      (if fs.isFile topLevelGit then (resolveGitdirFromFile env fs topLevelGit).toList else []) ++
        [topLevelGit]
    else []) ++
    (if fs.isDir topLevelAgents then [topLevelAgents] else []) ++
    (if protectMissingDotCodex || fs.isDir topLevelCodex then [topLevelCodex] else [])

namespace FileSystemSandboxPolicy

variable (policy : FileSystemSandboxPolicy)

def protectedMetadataNamesForWritableRoot (root : AbsolutePath)
    (rawWritableRoots : List AbsolutePath)
    (cwd : AbsolutePath) : List Text :=
  protectedMetadataPathNames.filter fun name =>
    (root :: rawWritableRoots).all fun r => !policy.canWritePathWithCwd env (r ++ [name]) cwd

/-- Where an entry without write access is carved out of a writable root. -/
def carveoutPath (root : AbsolutePath) (rawWritableRoots : List AbsolutePath)
    (path : AbsolutePath) : Option AbsolutePath :=
  let effectivePath := fs.normalizeEffectiveAbsolutePath path
  let rawCarveoutPath :=
    if root = [] then none
    else if path = root then none
    else if root.isPrefixOf path then some path
    else rawWritableRoots.findSome? fun rawRoot =>
      if rawRoot.isPrefixOf path ∧ rawRoot ≠ path then
        some (env.resolveAgainst (['/'].intercalate (path.drop rawRoot.length)) root)
      else none
  match rawCarveoutPath with
  | some path => some path
  | none =>
    if effectivePath = root ∨ ¬ root.isPrefixOf effectivePath then none else some effectivePath

def writableEntries (cwd : AbsolutePath) : List AbsolutePath :=
  ((policy.resolvedEntriesWithCwd env cwd).filter fun entry =>
    entry.access.canWrite && policy.canWritePathWithCwd env entry.path cwd).map (·.path)

def writableRootAt (cwd root : AbsolutePath) : WritableRoot :=
  let resolvedEntries := policy.resolvedEntriesWithCwd env cwd
  let rawWritableRoots :=
    (policy.writableEntries env cwd).filter fun path =>
      fs.normalizeEffectiveAbsolutePath path = root
  let protectMissingDotCodex := decide (fs.normalizeEffectiveAbsolutePath cwd = root)
  { root
    protectedMetadataNames :=
      policy.protectedMetadataNamesForWritableRoot env root rawWritableRoots cwd
    readOnlySubpaths := dedupPaths [] <|
      ((defaultReadOnlySubpathsForWritableRoot env fs root
        protectMissingDotCodex).filter fun path =>
        !resolvedEntries.any (·.path = path)) ++
      ((resolvedEntries.filter fun entry =>
        !entry.access.canWrite &&
          !policy.canWritePathWithCwd env entry.path cwd).filterMap fun entry =>
          carveoutPath env fs root rawWritableRoots entry.path) }

def getWritableRootsWithCwd (cwd : AbsolutePath) : List WritableRoot :=
  if policy.hasFullDiskWriteAccess then []
  else
    (dedupPaths [] ((policy.writableEntries env cwd).map fs.normalizeEffectiveAbsolutePath)).map
      (policy.writableRootAt env fs cwd)

end FileSystemSandboxPolicy

end WritableRoots

structure ReadDenyMatcher where
  deniedCandidates : List (List AbsolutePath)
  denyReadMatchers : List (Text → Bool)
  invalidPattern : Bool

section ReadDeny

variable (env : Env) (fs : FileSystem)

def normalizedAndCanonicalCandidates (path : AbsolutePath) : List AbsolutePath :=
  match fs.canonicalize path with
  | some canonical => if canonical = path then [path] else [path, canonical]
  | none => [path]

namespace FileSystemSandboxPolicy

variable (policy : FileSystemSandboxPolicy)

/-- The root itself is left out. -/
def getUnreadableRootsWithCwd (cwd : AbsolutePath) : List AbsolutePath :=
  if policy.kind ≠ .restricted then []
  else
    dedupPaths [] <| ((policy.resolvedEntriesWithCwd env cwd).filter fun entry =>
        entry.access = .deny && !policy.canReadPathWithCwd env entry.path cwd &&
          entry.path ≠ []).map
          fun entry => fs.normalizeEffectiveAbsolutePath entry.path

/-- The patterns of denied reads. The source sorts them and drops repeated ones. -/
def getUnreadableGlobsWithCwd (cwd : AbsolutePath) : List Text :=
  if policy.kind ≠ .restricted then []
  else
    (policy.entries.filter (·.access = .deny)).filterMap fun entry =>
      match entry.path with
      | .globPattern pattern => some (render (env.resolveAgainst pattern cwd))
      | _ => none

end FileSystemSandboxPolicy

namespace ReadDenyMatcher

/-- `ReadDenyMatcher::new`: a malformed pattern denies every read. -/
def new (policy : FileSystemSandboxPolicy) (cwd : AbsolutePath) : Option ReadDenyMatcher :=
  if !policy.hasDeniedReadRestrictions then none
  else
    let matchers := (policy.getUnreadableGlobsWithCwd env cwd).map env.buildGlobMatcher
    some
      { deniedCandidates :=
          (policy.getUnreadableRootsWithCwd env fs cwd).map (normalizedAndCanonicalCandidates fs)
        denyReadMatchers := matchers.filterMap id
        invalidPattern := matchers.any Option.isNone }

def isReadDenied (matcher : ReadDenyMatcher) (path : AbsolutePath) : Bool :=
  if matcher.invalidPattern then true
  else
    let pathCandidates := normalizedAndCanonicalCandidates fs path
    (matcher.deniedCandidates.any fun denied => pathCandidates.any fun candidate =>
      denied.any (·.isPrefixOf candidate)) ||
    matcher.denyReadMatchers.any fun isMatch => pathCandidates.any fun candidate =>
      isMatch (render candidate)

end ReadDenyMatcher

end ReadDeny

end OmniDoer.Permissions
