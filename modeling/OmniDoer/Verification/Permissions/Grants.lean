import OmniDoer.Verification.Permissions.Additional
import OmniDoer.Verification.Permissions.ReadDenial

/-! # Grants within a request

A granted entry is accepted by the access that the request has at its place. The denials of both
sides that concern an accepted entry are kept, so nothing can be read that one side denies. Entries
of the request that only read are not kept. -/

namespace OmniDoer.Permissions

open Rust Unix Rules List

variable (cwd : AbsolutePath)

theorem resolvePermissionPath_eq (env : Env) (path : FileSystemPath) :
    resolvePermissionPath env path cwd = resolveEntryPath env path cwd := by
  cases path with
  | path | globPattern => rfl
  | special value =>
    cases value with
    | projectRoots subpath => cases subpath <;> rfl
    | _ => rfl

theorem materialize_eq (env : Env) (e : FileSystemSandboxEntry) :
    resolveEntryPath env (materializeCwdDependentEntry env e cwd).path cwd =
      resolveEntryPath env e.path cwd ∧
      (materializeCwdDependentEntry env e cwd).access = e.access := by
  obtain ⟨path, access, missing⟩ := e
  cases path with
  | path | globPattern => exact ⟨rfl, rfl⟩
  | special value =>
    cases value with
    | projectRoots subpath => cases subpath <;> exact ⟨rfl, rfl⟩
    | _ => exact ⟨rfl, rfl⟩

namespace AdditionalPermissionProfile

def Exact (profile : AdditionalPermissionProfile) : Prop :=
  ∀ e ∈ profile.entries, ∀ pattern, e.path ≠ .globPattern pattern

/-- An entry of the profile leads to `q` and gives the access `a`. -/
def Rule (profile : AdditionalPermissionProfile) (env : Env) (cwd q : AbsolutePath)
    (a : FileSystemAccessMode) : Prop :=
  profile.policy.Rule env cwd q a

theorem rule_iff {profile : AdditionalPermissionProfile} {env : Env} {cwd q : AbsolutePath}
    {a : FileSystemAccessMode} :
    profile.Rule env cwd q a ↔
      ∃ e ∈ profile.entries, resolveEntryPath env e.path cwd = some q ∧ e.access = a :=
  FileSystemSandboxPolicy.rule_iff

theorem policy_kind (profile : AdditionalPermissionProfile) :
    profile.policy.kind = .restricted := rfl

end AdditionalPermissionProfile

open FileSystemSandboxPolicy

section Intersect

variable {env : Env} {fs : FileSystem} {requested granted : AdditionalPermissionProfile}
  {p q cwd : AbsolutePath}
  {a : FileSystemAccessMode} {e : FileSystemSandboxEntry}

/-- An entry of the grant that the request covers. -/
structure Accepted (env : Env) (fs : FileSystem) (requested granted : AdditionalPermissionProfile)
    (cwd q : AbsolutePath) (a : FileSystemAccessMode) : Prop where
  rule : granted.Rule env cwd q a
  readable : a ≠ .deny
  unblocked : (ReadDenyMatcher.new env fs requested.policy cwd).any (·.isReadDenied fs q) = false
  covered : accessCovers (requested.policy.resolveAccessWithCwd env q cwd) a = true

def Concerned (env : Env) (fs : FileSystem) (requested granted : AdditionalPermissionProfile)
    (cwd q : AbsolutePath) : Prop :=
  ∃ q' b, Accepted env fs requested granted cwd q' b ∧ (q' <+: q ∨ q <+: q')

theorem within_iff {fileSystem : FileSystemPermissions}
    (hpath : resolveEntryPath env e.path cwd = some q) :
    grantedFileSystemEntryWithinRequest env fs fileSystem e cwd = true ↔ e.access ≠ .deny ∧
      (ReadDenyMatcher.new env fs (.restricted fileSystem.entries) cwd).any
        (·.isReadDenied fs q) = false ∧
      accessCovers ((FileSystemSandboxPolicy.restricted fileSystem.entries).resolveAccessWithCwd env
        q cwd) e.access =
        true := by
  rw [grantedFileSystemEntryWithinRequest, resolvePermissionPath_eq, hpath]
  cases e.access <;> simp [FileSystemAccessMode.canRead]

def acceptedOf (env : Env) (fs : FileSystem) (requested granted : AdditionalPermissionProfile)
    (cwd : AbsolutePath) : List FileSystemSandboxEntry :=
  acceptedEntries env fs (requested.fileSystem.getD {}) (granted.fileSystem.getD {}) cwd

theorem entries_getD (profile : AdditionalPermissionProfile) :
    (profile.fileSystem.getD {}).entries = profile.entries := by
  rw [AdditionalPermissionProfile.entries]
  cases profile.fileSystem <;> rfl

theorem mem_acceptedOf : e ∈ acceptedOf env fs requested granted cwd ↔
    ∃ g ∈ granted.entries, grantedFileSystemEntryWithinRequest env fs
      (requested.fileSystem.getD {}) g cwd = true ∧
      materializeCwdDependentEntry env g cwd = e := by
  simp [acceptedOf, acceptedEntries, entries_getD, mem_foldl_pushUnique, and_assoc]

theorem accepted_iff : Accepted env fs requested granted cwd q a ↔
    ∃ e ∈ acceptedOf env fs requested granted cwd, resolveEntryPath env e.path cwd = some q ∧
      e.access = a := by
  constructor
  · rintro ⟨hrule, hreadable, hopen, hcovered⟩
    obtain ⟨g, hg, hpath, rfl⟩ := AdditionalPermissionProfile.rule_iff.1 hrule
    refine ⟨_, mem_acceptedOf.2 ⟨g, hg, ?_, rfl⟩, ?_, (materialize_eq cwd env g).2⟩
    · rw [within_iff hpath, entries_getD]
      exact ⟨hreadable, hopen, hcovered⟩
    · rw [(materialize_eq ..).1, hpath]
  · rintro ⟨_, he, hpath, rfl⟩
    obtain ⟨g, hg, hwithin, rfl⟩ := mem_acceptedOf.1 he
    rw [(materialize_eq ..).1] at hpath
    rw [within_iff hpath, entries_getD] at hwithin
    rw [(materialize_eq ..).2]
    exact ⟨AdditionalPermissionProfile.rule_iff.2 ⟨g, hg, hpath, rfl⟩, hwithin.1, hwithin.2.1,
      hwithin.2.2⟩

theorem acceptedOf_eq_nil (h : requested.fileSystem = none) :
    acceptedOf env fs requested granted cwd = [] := by
  rw [eq_nil_iff_forall_not_mem]
  intro e he
  obtain ⟨g, -, hwithin, -⟩ := mem_acceptedOf.1 he
  rw [h, grantedFileSystemEntryWithinRequest, resolvePermissionPath_eq] at hwithin
  cases hpath : resolveEntryPath env g.path cwd with
  | none => simp [hpath] at hwithin
  | some q =>
    have hdeny : (FileSystemSandboxPolicy.restricted []).resolveAccessWithCwd env q cwd =
        .deny := rfl
    cases haccess : g.access <;>
      simp [hpath, hdeny, haccess, accessCovers, FileSystemAccessMode.canRead,
        FileSystemAccessMode.canWrite] at hwithin

theorem constrains_iff {d : FileSystemSandboxEntry} {accepted : List FileSystemSandboxEntry}
    (hpath : resolveEntryPath env d.path cwd = some q) :
    denyEntryConstrainsAcceptedGrant env d accepted cwd = true ↔
      ∃ e ∈ accepted, e.access ≠ .deny ∧ ∃ q', resolveEntryPath env e.path cwd = some q' ∧
        (q' <+: q ∨ q <+: q') := by
  rw [denyEntryConstrainsAcceptedGrant, any_eq_true]
  simp only [mem_filter, and_assoc, FileSystemAccessMode.canRead, decide_eq_true_eq,
    resolvePermissionPath_eq]
  refine exists_congr fun e => and_congr_right fun _ => and_congr_right fun _ => ?_
  cases hgrant : resolveEntryPath env e.path cwd with
  | none => simp
  | some q' =>
    dsimp only
    split
    · rename_i h
      rw [h] at hpath
      cases hpath
    · rw [hpath, Option.any_some, pathsOverlap, Bool.or_eq_true, List.isPrefixOf_iff_prefix,
        List.isPrefixOf_iff_prefix]
      simp

theorem intersect_entries_of_some {fileSystem : FileSystemPermissions}
    (h : requested.fileSystem = some fileSystem) :
    (intersectPermissionProfiles env fs requested granted cwd).entries =
      (intersectFileSystem env fs fileSystem (granted.fileSystem.getD {}) cwd).entries := by
  rw [AdditionalPermissionProfile.entries, intersectPermissionProfiles, h]
  simp only [Option.map_some, Option.filter_some]
  split
  · rfl
  · rename_i hempty
    simp only [FileSystemPermissions.isEmpty, Bool.not_eq_true', Bool.not_eq_false,
      List.isEmpty_iff] at hempty
    rw [hempty]
    rfl

theorem mem_intersect_entries :
    e ∈ (intersectPermissionProfiles env fs requested granted cwd).entries ↔
    e ∈ acceptedOf env fs requested granted cwd ∨
      e ∈ constrainingDenyEntries env requested.entries
        (acceptedOf env fs requested granted cwd) cwd ∨
      e ∈ constrainingDenyEntries env granted.entries
        (acceptedOf env fs requested granted cwd) cwd := by
  cases hrequested : requested.fileSystem with
  | none =>
    have hnone (source : List FileSystemSandboxEntry) :
        constrainingDenyEntries env source [] cwd = [] := by
      simp [constrainingDenyEntries, denyEntryConstrainsAcceptedGrant]
    rw [acceptedOf_eq_nil hrequested, hnone, hnone]
    simp [AdditionalPermissionProfile.entries, intersectPermissionProfiles, hrequested]
  | some fileSystem =>
    have hsource : fileSystem.entries = requested.entries := by
      rw [AdditionalPermissionProfile.entries, hrequested]; rfl
    rw [intersect_entries_of_some hrequested, intersectFileSystem]
    simp [mem_foldl_pushUnique, or_assoc, acceptedOf, hrequested, hsource, entries_getD]

theorem intersect_rule_iff :
    (intersectPermissionProfiles env fs requested granted cwd).Rule env cwd q a ↔
    Accepted env fs requested granted cwd q a ∨
      a = .deny ∧ (requested.Rule env cwd q .deny ∨ granted.Rule env cwd q .deny) ∧
        Concerned env fs requested granted cwd q := by
  have hconcerns {d : FileSystemSandboxEntry} (hpath : resolveEntryPath env d.path cwd = some q) :
      denyEntryConstrainsAcceptedGrant env d (acceptedOf env fs requested granted cwd) cwd = true ↔
        Concerned env fs requested granted cwd q := by
    rw [constrains_iff hpath]
    constructor
    · rintro ⟨e, he, -, q', hq', hoverlap⟩
      exact ⟨q', e.access, accepted_iff.2 ⟨e, he, hq', rfl⟩, hoverlap⟩
    · rintro ⟨q', b, haccepted, hoverlap⟩
      obtain ⟨e, he, hq', rfl⟩ := accepted_iff.1 haccepted
      exact ⟨e, he, haccepted.readable, q', hq', hoverlap⟩
  have hretained (source : AdditionalPermissionProfile) :
      (∃ e ∈ constrainingDenyEntries env source.entries
        (acceptedOf env fs requested granted cwd) cwd,
        resolveEntryPath env e.path cwd = some q ∧ e.access = a) ↔
      a = .deny ∧ source.Rule env cwd q .deny ∧ Concerned env fs requested granted cwd q := by
    simp only [constrainingDenyEntries, mem_map, mem_filter, decide_eq_true_eq]
    constructor
    · rintro ⟨_, ⟨d, ⟨⟨hd, hdeny⟩, hconstrains⟩, rfl⟩, hpath, rfl⟩
      rw [(materialize_eq ..).1] at hpath
      rw [(materialize_eq ..).2]
      exact ⟨hdeny, AdditionalPermissionProfile.rule_iff.2 ⟨d, hd, hpath, hdeny⟩,
        (hconcerns hpath).1 hconstrains⟩
    · rintro ⟨rfl, hrule, hconcern⟩
      obtain ⟨d, hd, hpath, hdeny⟩ := AdditionalPermissionProfile.rule_iff.1 hrule
      exact ⟨_, ⟨d, ⟨⟨hd, hdeny⟩, (hconcerns hpath).2 hconcern⟩, rfl⟩,
        by rw [(materialize_eq ..).1, hpath], by rw [(materialize_eq ..).2, hdeny]⟩
  rw [AdditionalPermissionProfile.rule_iff, accepted_iff]
  simp only [mem_intersect_entries, or_and_right, exists_or, hretained, and_or_left]

section Nearest

variable (h : Nearest
  ((intersectPermissionProfiles env fs requested granted cwd).Rule env cwd) p q a) (ha : a ≠ .deny)
include h ha

theorem accepted_of_nearest : Accepted env fs requested granted cwd q a :=
  (intersect_rule_iff.1 h.rule).resolve_right fun hdeny => ha hdeny.1

theorem deny_above {d : AbsolutePath}
    (hd : requested.Rule env cwd d .deny ∨ granted.Rule env cwd d .deny)
    (hdp : d <+: p) : d <+: q ∧ d ≠ q := by
  have hrule : (intersectPermissionProfiles env fs requested granted cwd).Rule env cwd d .deny :=
    intersect_rule_iff.2 (.inr ⟨rfl, hd, q, a, accepted_of_nearest h ha,
      List.prefix_or_prefix_of_prefix h.above hdp⟩)
  refine ⟨h.nearest d _ hrule hdp, ?_⟩
  rintro rfl
  exact ha (FileSystemAccessMode.deny_le_iff.1 (h.greatest _ hrule))

theorem requested_ne_deny : requested.policy.resolveAccessWithCwd env p cwd ≠ .deny := by
  have haccepted := accepted_of_nearest h ha
  have hne : requested.policy.resolveAccessWithCwd env q cwd ≠ .deny := by
    intro hdeny
    have hcovered := haccepted.covered
    rw [hdeny] at hcovered
    cases a <;> cases hcovered
  obtain ⟨r, hr⟩ := exists_nearest_of_ne_deny requested.policy_kind hne
  obtain ⟨d, hd⟩ := exists_nearest requested.policy_kind hr.rule (hr.above.trans h.above)
  intro hdeny
  rw [hdeny] at hd
  have hdq := (deny_above h ha (.inl hd.rule) hd.above).1
  exact hne (resolveAccess_eq requested.policy_kind (hd.between hdq h.above))

theorem granted_ne_deny : granted.policy.resolveAccessWithCwd env p cwd ≠ .deny := by
  have hrule := (accepted_of_nearest h ha).rule
  obtain ⟨d, hd⟩ := exists_nearest granted.policy_kind hrule h.above
  intro hdeny
  rw [hdeny] at hd
  have hdq := deny_above h ha (.inr hd.rule) hd.above
  exact hdq.2 (Nearest.antisymm hdq.1 (hd.nearest q a hrule h.above))

end Nearest

theorem granted_write (hlinks : fs.NoSymlinks) (hexact : requested.Exact)
    (h : Nearest
      ((intersectPermissionProfiles env fs requested granted cwd).Rule env cwd) p q .write) :
    granted.policy.resolveAccessWithCwd env p cwd = .write := by
  have haccepted := accepted_of_nearest h nofun
  obtain ⟨g, hg⟩ := exists_nearest granted.policy_kind haccepted.rule h.above
  cases haccess : granted.policy.resolveAccessWithCwd env p cwd with
  | write => rfl
  | deny => exact absurd haccess (granted_ne_deny h nofun)
  | read =>
    exfalso
    rw [haccess] at hg
    have hqg := hg.nearest q _ haccepted.rule h.above
    have hne : q ≠ g := by
      rintro rfl
      exact absurd (hg.greatest _ haccepted.rule) (by decide)
    -- the entry of the grant that only reads was not accepted
    have hnot : ¬ Accepted env fs requested granted cwd g .read := fun hread =>
      hne (Nearest.antisymm hqg (h.nearest g _ (intersect_rule_iff.2 (.inl hread)) hg.above))
    refine hnot ⟨hg.rule, nofun, ?_, ?_⟩
    · rw [Bool.eq_false_iff, ne_eq, isReadDenied_iff requested.policy_kind hlinks hexact]
      rintro ⟨d, hroot, hd, hdg⟩
      have hdq := (deny_above h nofun (.inl hd) (hdg.trans hg.above)).1
      have hopen := haccepted.unblocked
      rw [(isReadDenied_iff requested.policy_kind hlinks hexact).2 ⟨d, hroot, hd, hdq⟩] at hopen
      cases hopen
    · -- up to there the request is read by the same denials
      have hbetween : Nearest
          ((intersectPermissionProfiles env fs requested granted cwd).Rule env cwd) g q .write :=
        h.between hqg hg.above
      exact decide_eq_true (requested_ne_deny hbetween nofun)

/-- The path lies in a protected directory of the policy, of several the first in the order of the
entries, and no entry with write access opens it. -/
def FileSystemSandboxPolicy.Guards (policy : FileSystemSandboxPolicy) (env : Env)
    (cwd p : AbsolutePath) : Prop :=
  policy.hasFullDiskWriteAccess = false ∧
    ∃ m n, (policy.writePaths env cwd).findSome? (protectedChild p) = some (m, n) ∧
      ∀ w, policy.Rule env cwd w .write → m <+: w → ¬ w <+: p

theorem FileSystemSandboxPolicy.guards_iff {policy : FileSystemSandboxPolicy}
    (hkind : policy.kind = .restricted) :
    policy.Guards env cwd p ↔
      policy.hasFullDiskWriteAccess = false ∧ policy.isMetadataWriteDenied env p cwd = true := by
  rw [Guards, isMetadataWriteDenied_iff hkind, metadataChildOfWritableRoot_eq]

def AdditionalPermissionProfile.ReadOnlyAt (profile : AdditionalPermissionProfile) (env : Env)
    (cwd p : AbsolutePath) : Prop :=
  ∃ q, Nearest (profile.Rule env cwd) p q .read

/-- What a grant lets be read, both sides let be read, and it enables the network only if both do.
What it lets be written, both sides let be written just when the request does not list the path for
reading, and neither side protects it. -/
theorem grant_within_request_and_approval (hlinks : fs.NoSymlinks) (hexact : requested.Exact) :
    let result := intersectPermissionProfiles env fs requested granted cwd
    (result.policy.canReadPathWithCwd env p cwd = true →
      requested.policy.canReadPathWithCwd env p cwd = true ∧
        granted.policy.canReadPathWithCwd env p cwd = true) ∧
    (result.networkEnabled = true → requested.networkEnabled = true ∧
      granted.networkEnabled = true) ∧
    (result.policy.canWritePathWithCwd env p cwd = true →
      ((requested.policy.canWritePathWithCwd env p cwd = true ∧
        granted.policy.canWritePathWithCwd env p cwd = true) ↔
        ¬ requested.ReadOnlyAt env cwd p ∧ ¬ requested.policy.Guards env cwd p ∧
          ¬ granted.policy.Guards env cwd p)) := by
  intro result
  refine ⟨fun hread => ?_, fun hnetwork => ?_, fun hwrite => ?_⟩
  · have hne : result.policy.resolveAccessWithCwd env p cwd ≠ .deny := of_decide_eq_true hread
    obtain ⟨q, h⟩ := exists_nearest_of_ne_deny result.policy_kind hne
    exact ⟨decide_eq_true (requested_ne_deny h hne), decide_eq_true (granted_ne_deny h hne)⟩
  · by_contra hnot
    have hnone : result.network = none := if_neg hnot
    rw [AdditionalPermissionProfile.networkEnabled, hnone] at hnetwork
    cases hnetwork
  · obtain ⟨haccess, -⟩ := canWrite_eq_true_iff.1 hwrite
    obtain ⟨q, h⟩ := exists_nearest_write result.policy_kind haccess
    have hrequested : requested.policy.resolveAccessWithCwd env p cwd = .write ↔
        ¬ requested.ReadOnlyAt env cwd p := by
      have hne := requested_ne_deny h nofun
      obtain ⟨r, hr⟩ := exists_nearest_of_ne_deny requested.policy_kind hne
      constructor
      · rintro hwrite ⟨r', hr'⟩
        have hread := resolveAccess_eq requested.policy_kind hr'
        rw [hwrite] at hread
        cases hread
      · intro hnot
        cases hcase : requested.policy.resolveAccessWithCwd env p cwd with
        | write => rfl
        | deny => exact absurd hcase hne
        | read => exact absurd ⟨r, hcase ▸ hr⟩ hnot
    rw [canWrite_eq_true_iff, canWrite_eq_true_iff, hrequested,
      granted_write hlinks hexact h, eq_self, true_and, and_assoc, guards_iff requested.policy_kind,
      guards_iff granted.policy_kind]

def pathProfile (entries : List (List String × FileSystemAccessMode)) :
    AdditionalPermissionProfile where
  fileSystem := some
    { entries := entries.map fun (names, access) =>
        ⟨.path (names.map String.toList), access, none⟩ }

theorem exact_pathProfile (entries : List (List String × FileSystemAccessMode)) :
    (pathProfile entries).Exact := by
  rintro e he pattern hpath
  obtain ⟨entry, -, rfl⟩ := mem_map.1 he
  cases hpath

/-- A directory to read within one that was requested for writing. -/
theorem grant_within_request_and_approval_below :
    let requested := pathProfile [(["a"], .write)]
    let granted := pathProfile [(["a", "b"], .read)]
    let env := bareEnv
    let p := ["a".toList, "b".toList, "x".toList]
    requested.policy.canReadPathWithCwd env p [] = true ∧
      granted.policy.canReadPathWithCwd env p [] = true :=
  (grant_within_request_and_approval noSymlinks_emptyFileSystem
    (exact_pathProfile [(["a"], .write)])).1 (by decide +kernel)

/-- The request asks to write `/a` and only to read `/a/b`; the result writes both. -/
theorem requested_read_becomes_write :
    let requested := pathProfile [(["a"], .write), (["a", "b"], .read)]
    let granted := pathProfile [(["a"], .write)]
    let env := bareEnv
    let result := intersectPermissionProfiles env emptyFileSystem requested granted []
    let p := ["a".toList, "b".toList, "x".toList]
    result.policy.canWritePathWithCwd env p [] = true ∧
      requested.policy.canWritePathWithCwd env p [] = false := by
  decide +kernel

end Intersect

end OmniDoer.Permissions
