import OmniDoer.Model.ExecPolicyManager

/-! # Permissions beyond the policy

The model of `codex-rs/sandboxing/src/policy_transforms.rs` and of `apply_granted_turn_permissions`
in `codex-rs/core/src/tools/handlers/mod.rs`: how permissions are requested, granted and used again.
-/

namespace OmniDoer.Permissions

open Rust Unix

structure FileSystemPermissions where
  entries : List FileSystemSandboxEntry := []
  globScanMaxDepth : Option ℕ := none
  deriving DecidableEq

def FileSystemPermissions.isEmpty (permissions : FileSystemPermissions) : Bool :=
  permissions.entries.isEmpty

structure NetworkPermissions where
  enabled : Option Bool
  deriving DecidableEq

structure AdditionalPermissionProfile where
  network : Option NetworkPermissions := none
  fileSystem : Option FileSystemPermissions := none
  deriving DecidableEq

namespace AdditionalPermissionProfile

def isEmpty (profile : AdditionalPermissionProfile) : Bool :=
  profile.network.isNone && profile.fileSystem.isNone

def entries (profile : AdditionalPermissionProfile) : List FileSystemSandboxEntry :=
  (profile.fileSystem.map (·.entries)).getD []

def networkEnabled (profile : AdditionalPermissionProfile) : Bool :=
  profile.network = some ⟨some true⟩

/-- The restricted policy of the entries of a profile. -/
def policy (profile : AdditionalPermissionProfile) : FileSystemSandboxPolicy :=
  .restricted profile.entries

end AdditionalPermissionProfile

inductive GlobScanDepth where
  | bounded (depth : ℕ)
  | unbounded

def isDenyGlob (entry : FileSystemSandboxEntry) : Bool :=
  entry.access = .deny && match entry.path with
    | .globPattern _ => true
    | _ => false

def effectiveGlobScanDepth (entries : List FileSystemSandboxEntry) (depth : Option ℕ) :
    Option GlobScanDepth :=
  if entries.any isDenyGlob then
    match depth with
    | some depth => some (.bounded depth)
    | none => some .unbounded
  else none

def mergeGlobScanMaxDepth (leftEntries : List FileSystemSandboxEntry) (leftDepth : Option ℕ)
    (rightEntries : List FileSystemSandboxEntry) (rightDepth : Option ℕ) : Option ℕ :=
  match effectiveGlobScanDepth leftEntries leftDepth,
    effectiveGlobScanDepth rightEntries rightDepth with
  | some .unbounded, _ | _, some .unbounded => none
  | some (.bounded left), some (.bounded right) => some (max left right)
  | some (.bounded depth), none | none, some (.bounded depth) => some depth
  | none, none => none

/-- `NonZeroUsize::new`. -/
def nonZero (depth : ℕ) : Option ℕ := if depth = 0 then none else some depth

def mergePermissionEntries (base permissions : List FileSystemSandboxEntry) :
    List FileSystemSandboxEntry :=
  (base ++ permissions).foldl pushUnique []

def mergeFileSystemPermissions (base permissions : Option FileSystemPermissions) :
    Option FileSystemPermissions :=
  match base, permissions with
  | some base, some permissions =>
    some
      { entries := mergePermissionEntries base.entries permissions.entries
        globScanMaxDepth := (mergeGlobScanMaxDepth base.entries base.globScanMaxDepth
          permissions.entries permissions.globScanMaxDepth).bind nonZero : FileSystemPermissions }
      |>.filter (!·.isEmpty)
  | some base, none => some base
  | none, permissions => permissions

def mergePermissionProfiles (base permissions : Option AdditionalPermissionProfile) :
    Option AdditionalPermissionProfile :=
  match base, permissions with
  | base, none => base
  | none, some permissions => (some permissions).filter (!·.isEmpty)
  | some base, some permissions =>
    some
      { network :=
          if base.networkEnabled ∨ permissions.networkEnabled then some ⟨some true⟩ else none
        fileSystem := mergeFileSystemPermissions base.fileSystem permissions.fileSystem :
          AdditionalPermissionProfile }
      |>.filter (!·.isEmpty)

def accessCovers (requested granted : FileSystemAccessMode) : Bool :=
  match granted with
  | .read => requested.canRead
  | .write => requested.canWrite
  | .deny => false

def pathsOverlap (left right : AbsolutePath) : Bool :=
  right.isPrefixOf left || left.isPrefixOf right

section Intersect

variable (env : Env) (fs : FileSystem)

def resolvePermissionPath (path : FileSystemPath) (cwd : AbsolutePath) : Option AbsolutePath :=
  match path with
  | .path path => some path
  | .globPattern _ => none
  | .special .root => some []
  | .special (.projectRoots (some subpath)) => some (env.resolveAgainst subpath cwd)
  | .special (.projectRoots none) => some cwd
  | .special .tmpdir =>
    match env.tmpdirVar with
    | none | some [] => none
    | some tmpdir => env.fromAbsolutePath tmpdir
  | .special .slashTmp => if env.slashTmpIsDir then some slashTmp else none
  | .special .minimal | .special (.unknown _ _) => none

/-- The entry as it is kept for other working directories. -/
def materializeCwdDependentEntry (entry : FileSystemSandboxEntry) (cwd : AbsolutePath) :
    FileSystemSandboxEntry :=
  match entry.path with
  | .special (.projectRoots _) =>
    match resolvePermissionPath env entry.path cwd with
    | some path => { entry with path := .path path }
    | none => entry
  | .globPattern pattern =>
    { entry with path := .globPattern (render (env.resolveAgainst pattern cwd)) }
  | _ => entry

def isGlobScanStop (c : Char) : Bool := c ∈ ['*', '?', '[', ']']

/-- The directory that a pattern starts with, as far as it has none of the four characters. -/
def globStaticPrefixPath (pattern : Text) (cwd : AbsolutePath) : Option AbsolutePath :=
  let text := render (env.resolveAgainst pattern cwd)
  let start := text.takeWhile fun c => !isGlobScanStop c
  if start = text then env.fromAbsolutePath text
  else if start = [] then none
  else if start.getLast? = some '/' ∨ start.getLast? = some '\\' then env.fromAbsolutePath start
  else
    -- `Path::new(start).parent()`
    match (components start).2 with
    | [] => none
    | names => some (names.dropLast.foldl stepTo [])

def denyEntryConstrainsAcceptedGrant (denyEntry : FileSystemSandboxEntry)
    (acceptedEntries : List FileSystemSandboxEntry)
    (cwd : AbsolutePath) : Bool :=
  (acceptedEntries.filter (·.access.canRead)).any fun entry =>
    match resolvePermissionPath env entry.path cwd with
    | none => false
    | some grantPath =>
      match denyEntry.path with
      | .globPattern pattern =>
        (globStaticPrefixPath env pattern cwd).any (pathsOverlap · grantPath)
      | _ => (resolvePermissionPath env denyEntry.path cwd).any (pathsOverlap · grantPath)

/-- The denials of a profile that concern what is granted. -/
def constrainingDenyEntries (sourceEntries acceptedEntries : List FileSystemSandboxEntry)
    (cwd : AbsolutePath) : List FileSystemSandboxEntry :=
  ((sourceEntries.filter (·.access = .deny)).filter
    (denyEntryConstrainsAcceptedGrant env · acceptedEntries cwd)).map
      (materializeCwdDependentEntry env · cwd)

def grantedFileSystemEntryWithinRequest (requested : FileSystemPermissions)
    (grantedEntry : FileSystemSandboxEntry)
    (cwd : AbsolutePath) : Bool :=
  let requestedPolicy := FileSystemSandboxPolicy.restricted requested.entries
  if !grantedEntry.access.canRead then false
  else
    match resolvePermissionPath env grantedEntry.path cwd with
    | some path =>
      if (ReadDenyMatcher.new env fs requestedPolicy cwd).any (·.isReadDenied fs path) then false
      else accessCovers (requestedPolicy.resolveAccessWithCwd env path cwd) grantedEntry.access
    | none => requested.entries.any fun requestedEntry =>
        accessCovers requestedEntry.access grantedEntry.access &&
          requestedEntry.path = grantedEntry.path

def acceptedEntries (requested granted : FileSystemPermissions) (cwd : AbsolutePath) :
    List FileSystemSandboxEntry :=
  ((granted.entries.filter (grantedFileSystemEntryWithinRequest env fs requested · cwd)).map
    (materializeCwdDependentEntry env · cwd)).foldl pushUnique []

def intersectFileSystem (requested granted : FileSystemPermissions) (cwd : AbsolutePath) :
    FileSystemPermissions :=
  let accepted := acceptedEntries env fs requested granted cwd
  let requestedRetained := constrainingDenyEntries env requested.entries accepted cwd
  let grantedRetained := constrainingDenyEntries env granted.entries accepted cwd
  { entries := grantedRetained.foldl pushUnique (requestedRetained.foldl pushUnique accepted)
    globScanMaxDepth := (mergeGlobScanMaxDepth requestedRetained requested.globScanMaxDepth
      grantedRetained granted.globScanMaxDepth).bind nonZero }

def intersectPermissionProfiles (requested granted : AdditionalPermissionProfile)
    (cwd : AbsolutePath) : AdditionalPermissionProfile where
  fileSystem := (requested.fileSystem.map fun requestedFileSystem =>
    intersectFileSystem env fs requestedFileSystem (granted.fileSystem.getD {}) cwd).filter
      (!·.isEmpty)
  network := if requested.networkEnabled ∧ granted.networkEnabled then some ⟨some true⟩ else none

end Intersect

def mergeFileSystemPolicyWithAdditionalPermissions (policy : FileSystemSandboxPolicy)
    (additional : FileSystemPermissions) : FileSystemSandboxPolicy :=
  match policy.kind with
  | .restricted =>
    { policy with
      entries := additional.entries.foldl pushUnique policy.entries
      globScanMaxDepth := mergeGlobScanMaxDepth policy.entries policy.globScanMaxDepth
        additional.entries additional.globScanMaxDepth }
  | .unrestricted | .externalSandbox => policy

def effectiveFileSystemSandboxPolicy (policy : FileSystemSandboxPolicy)
    (additional : Option AdditionalPermissionProfile) : FileSystemSandboxPolicy :=
  match additional.bind (·.fileSystem) with
  | none => policy
  | some fileSystem =>
    if fileSystem.isEmpty then policy
    else mergeFileSystemPolicyWithAdditionalPermissions policy fileSystem

open ExecPolicy (SandboxPermissions)

structure EffectiveAdditionalPermissions where
  sandboxPermissions : SandboxPermissions
  additionalPermissions : Option AdditionalPermissionProfile
  permissionsPreapproved : Bool

section Granted

variable (env : Env) (fs : FileSystem)

def permissionsArePreapproved (effective granted : AdditionalPermissionProfile)
    (cwd : AbsolutePath) : Bool :=
  intersectPermissionProfiles env fs effective granted cwd =
    intersectPermissionProfiles env fs effective effective cwd

/-- `apply_granted_turn_permissions`, with the grants of the session and of the turn. -/
def applyGrantedTurnPermissions (grantedSession grantedTurn : Option AdditionalPermissionProfile)
    (cwd : AbsolutePath)
    (sandboxPermissions : SandboxPermissions) (additional : Option AdditionalPermissionProfile) :
    EffectiveAdditionalPermissions :=
  if sandboxPermissions = .requireEscalated then ⟨sandboxPermissions, additional, false⟩
  else
    let granted := mergePermissionProfiles grantedSession grantedTurn
    let effective := mergePermissionProfiles additional granted
    { sandboxPermissions :=
        if effective.isSome then .withAdditionalPermissions else sandboxPermissions
      additionalPermissions := effective
      permissionsPreapproved :=
        match effective, granted with
        | some effective, some granted => permissionsArePreapproved env fs effective granted cwd
        | _, _ => false }

end Granted

end OmniDoer.Permissions
