import OmniDoer.Model.PolicyTransforms
import OmniDoer.Verification.Permissions.Metadata

/-! # Additional permissions over a policy

The entries of additional permissions are put behind those of the policy. A nearer entry decides, so
an entry that reads takes write access away, and an entry that writes protects names below itself.
-/

namespace OmniDoer.Permissions

open Rust Unix Rules List

theorem mem_pushUnique {entries : List FileSystemSandboxEntry} {e x : FileSystemSandboxEntry} :
    x ∈ pushUnique entries e ↔ x ∈ entries ∨ x = e := by
  rw [pushUnique]
  split
  · rename_i h
    exact ⟨.inl, fun h' => h'.elim id fun heq => heq ▸ h⟩
  · simp

theorem mem_foldl_pushUnique {more entries : List FileSystemSandboxEntry}
    {x : FileSystemSandboxEntry} :
    x ∈ more.foldl pushUnique entries ↔ x ∈ entries ∨ x ∈ more := by
  induction more generalizing entries with
  | nil => simp
  | cons e more ih => rw [foldl_cons, ih, mem_pushUnique, mem_cons, or_assoc]

theorem findSome?_foldl_pushUnique {β : Type} (f : FileSystemSandboxEntry → Option β)
    (more entries : List FileSystemSandboxEntry) :
    (more.foldl pushUnique entries).findSome? f = (entries ++ more).findSome? f := by
  induction more generalizing entries with
  | nil => simp
  | cons e more ih =>
    rw [foldl_cons, ih, pushUnique]
    split
    · rename_i hmem
      rw [findSome?_append, findSome?_append, findSome?_cons]
      cases hfound : entries.findSome? f with
      | some b => rfl
      | none => rw [findSome?_eq_none_iff.1 hfound e hmem]
    · simp

namespace FileSystemSandboxPolicy

variable {P Q : FileSystemSandboxPolicy} {env : Env} {p q cwd : AbsolutePath}
  {a : FileSystemAccessMode}

/-- The protected directory below an entry on the way to a path. -/
def entryChild (env : Env) (cwd p : AbsolutePath) (e : FileSystemSandboxEntry) :
    Option (AbsolutePath × Text) :=
  if e.access.canWrite then (resolveEntryPath env e.path cwd).bind (protectedChild p) else none

theorem entryChild_of_deny {e : FileSystemSandboxEntry} (h : e.access = .deny) :
    entryChild env cwd p e = none := by
  rw [entryChild, h]
  rfl

theorem metadataChild_eq_findSome? (P : FileSystemSandboxPolicy) :
    P.metadataChildOfWritableRoot env p cwd = P.entries.findSome? (entryChild env cwd p) := by
  rw [metadataChildOfWritableRoot_eq, writePaths, resolvedEntriesWithCwd]
  induction P.entries with
  | nil => rfl
  | cons e entries ih =>
    rw [findSome?_cons, ← ih, filterMap_cons, entryChild]
    cases hpath : resolveEntryPath env e.path cwd <;> cases haccess : e.access.canWrite <;>
      simp [haccess, findSome?_cons]

/-- More entries that write and fewer others keep access to the whole disk. -/
theorem full_mono (hkind : P.kind = Q.kind)
    (hwrite : ∀ e ∈ P.entries, e.access = .write → e ∈ Q.entries)
    (hother : ∀ e ∈ Q.entries, e.access ≠ .write → e ∈ P.entries)
    (h : P.hasFullDiskWriteAccess = true) :
    Q.hasFullDiskWriteAccess = true := by
  have hoverride {e : FileSystemSandboxEntry} (h : P.hasSameTargetWriteOverride e = true) :
      Q.hasSameTargetWriteOverride e = true := by
    obtain ⟨c, hc, hover⟩ := any_eq_true.1 h
    have haccess : c.access = .write := by simp_all [FileSystemAccessMode.canWrite]
    exact any_eq_true.2 ⟨c, hwrite c hc haccess, hover⟩
  have hnarrowing {e : FileSystemSandboxEntry} (h : P.isWriteNarrowing e = false) :
      Q.isWriteNarrowing e = false := by
    unfold isWriteNarrowing at h ⊢
    split
    · rfl
    · rw [if_neg (by assumption)] at h
      split at h <;> simp_all
  unfold hasFullDiskWriteAccess at h ⊢
  rw [← hkind]
  split at h
  · rfl
  · rfl
  · rename_i hrestricted
    simp only [hasRootAccess, hasWriteNarrowingEntries, hrestricted, ← hkind, decide_true,
      Bool.true_and, Bool.and_eq_true, any_eq_true, Bool.not_eq_true', any_eq_false] at h ⊢
    obtain ⟨⟨e, he, hroot, hcan⟩, hnone⟩ := h
    refine ⟨⟨e, hwrite e he (of_decide_eq_true hcan), hroot, hcan⟩, fun e he => ?_⟩
    by_cases haccess : e.access = .write
    · simp [isWriteNarrowing, haccess, FileSystemAccessMode.canWrite]
    · simp [hnarrowing (Bool.eq_false_iff.2 (hnone e (hother e he haccess)))]

/-- The entries are the same up to their order and repetitions. -/
structure SameEntries (P Q : FileSystemSandboxPolicy) : Prop where
  kind : P.kind = Q.kind
  mem_iff : ∀ e, e ∈ P.entries ↔ e ∈ Q.entries

namespace SameEntries

variable (h : P.SameEntries Q)
include h

theorem rule_iff : P.Rule env cwd q a ↔ Q.Rule env cwd q a := by
  rw [FileSystemSandboxPolicy.rule_iff, FileSystemSandboxPolicy.rule_iff]
  simp only [h.mem_iff]

theorem resolveAccess_eq : P.resolveAccessWithCwd env p cwd = Q.resolveAccessWithCwd env p cwd := by
  by_cases hkind : Q.kind = .restricted
  · have hrule : P.Rule env cwd = Q.Rule env cwd := by
      funext q a
      exact propext h.rule_iff
    rcases resolveAccess_cases (h.kind.trans hkind) p with ⟨q, hnearest⟩ | ⟨hnone, hdeny⟩
    · rw [hrule] at hnearest
      exact (FileSystemSandboxPolicy.resolveAccess_eq hkind hnearest).symm
    · rw [hdeny]
      rcases resolveAccess_cases hkind p with ⟨q, hnearest⟩ | ⟨-, hdeny⟩
      · rw [hrule] at hnone
        exact absurd hnearest.above (hnone _ _ hnearest.rule)
      · exact hdeny.symm
  · rw [resolveAccess_of_ne_restricted hkind, resolveAccess_of_ne_restricted (h.kind ▸ hkind)]

theorem canRead_eq : P.canReadPathWithCwd env p cwd = Q.canReadPathWithCwd env p cwd := by
  rw [canReadPathWithCwd, canReadPathWithCwd, h.resolveAccess_eq]

theorem hasFullDiskWriteAccess_eq : P.hasFullDiskWriteAccess = Q.hasFullDiskWriteAccess :=
  Bool.eq_iff_iff.2 ⟨full_mono h.kind (fun e he _ => (h.mem_iff e).1 he) fun e he _ =>
    (h.mem_iff e).2 he,
    full_mono h.kind.symm (fun e he _ => (h.mem_iff e).2 he) fun e he _ => (h.mem_iff e).1 he⟩

end SameEntries

/-- The entries differ in repetitions only. -/
structure Alike (P Q : FileSystemSandboxPolicy) : Prop where
  kind : P.kind = Q.kind
  found : ∀ {β : Type} (f : FileSystemSandboxEntry → Option β), P.entries.findSome? f =
    Q.entries.findSome? f

namespace Alike

variable (h : P.Alike Q)
include h

theorem same : P.SameEntries Q := by
  refine ⟨h.kind, fun e => ?_⟩
  have hfound (entries : List FileSystemSandboxEntry) :
      e ∈ entries ↔ (entries.findSome? fun x => if x = e then some () else none).isSome = true := by
    simp
  rw [hfound, hfound, h.found]

theorem denied_eq : P.isMetadataWriteDenied env p cwd = Q.isMetadataWriteDenied env p cwd := by
  by_cases hkind : Q.kind = .restricted
  · rw [Bool.eq_iff_iff, isMetadataWriteDenied_iff hkind,
      isMetadataWriteDenied_iff (h.kind.trans hkind), metadataChild_eq_findSome?,
      metadataChild_eq_findSome?, h.found]
    simp only [h.same.rule_iff]
  · rw [isMetadataWriteDenied, isMetadataWriteDenied, if_pos hkind, if_pos (h.kind ▸ hkind)]

theorem canWrite_eq : P.canWritePathWithCwd env p cwd = Q.canWritePathWithCwd env p cwd := by
  rw [canWritePathWithCwd, canWritePathWithCwd, h.same.resolveAccess_eq,
    h.same.hasFullDiskWriteAccess_eq, h.denied_eq]

end Alike

/-- The entries of a policy, and then those of additional permissions. -/
def joined (base : FileSystemSandboxPolicy) (additional : AdditionalPermissionProfile) :
    FileSystemSandboxPolicy :=
  { base with entries := base.entries ++ additional.entries }

variable {base : FileSystemSandboxPolicy} {additional : AdditionalPermissionProfile}

variable (additional) in
theorem alike_effective (hkind : base.kind = .restricted) :
    (effectiveFileSystemSandboxPolicy base (some additional)).Alike (base.joined additional) := by
  rw [effectiveFileSystemSandboxPolicy, joined, AdditionalPermissionProfile.entries]
  cases hfs : additional.fileSystem with
  | none =>
    simp only [Option.bind_some, hfs]
    exact ⟨rfl, fun f => by simp⟩
  | some fileSystem =>
    simp only [Option.bind_some, hfs]
    split
    · rename_i hempty
      rw [FileSystemPermissions.isEmpty, List.isEmpty_iff] at hempty
      exact ⟨rfl, fun f => by simp [hempty]⟩
    · rw [mergeFileSystemPolicyWithAdditionalPermissions, hkind]
      exact ⟨rfl, fun f => findSome?_foldl_pushUnique f _ _⟩

theorem joined_kind (base : FileSystemSandboxPolicy) (additional : AdditionalPermissionProfile) :
    (base.joined additional).kind = base.kind := rfl

theorem joined_rule_iff : (base.joined additional).Rule env cwd q a ↔
    base.Rule env cwd q a ∨ additional.policy.Rule env cwd q a := by
  simp [rule_iff, joined, AdditionalPermissionProfile.policy, restricted, or_and_right, exists_or]

theorem effective_of_ne_restricted (hkind : base.kind ≠ .restricted) :
    effectiveFileSystemSandboxPolicy base (some additional) = base := by
  rw [effectiveFileSystemSandboxPolicy]
  split
  · rfl
  · split
    · rfl
    · rw [mergeFileSystemPolicyWithAdditionalPermissions]
      split
      · rename_i h
        exact absurd h hkind
      · rfl
      · rfl

/-- An additional entry that reads lies nearer to the path than every entry that writes. -/
def NarrowedAt (base : FileSystemSandboxPolicy)
    (additional : AdditionalPermissionProfile) (env : Env)
    (cwd p : AbsolutePath) : Prop :=
  ∃ q, additional.policy.Rule env cwd q .read ∧ q <+: p ∧
    ∀ w, base.Rule env cwd w .write ∨ additional.policy.Rule env cwd w .write → w <+: p →
      w <+: q ∧ w ≠ q

/-- The path lies in a protected directory of an entry of either, and no entry of either opens it.
-/
def ProtectedAt (base : FileSystemSandboxPolicy)
    (additional : AdditionalPermissionProfile) (env : Env)
    (cwd p : AbsolutePath) : Prop :=
  (base.joined additional).hasFullDiskWriteAccess = false ∧
    ∃ m n, (base.writePaths env cwd ++ additional.policy.writePaths env cwd).findSome?
      (protectedChild p) = some (m, n) ∧
      ∀ w, base.Rule env cwd w .write ∨ additional.policy.Rule env cwd w .write →
        m <+: w → ¬ w <+: p

section Restricted

variable (hkind : base.kind = .restricted) (hdeny : ∀ e ∈ additional.entries, e.access ≠ .deny)
include hkind hdeny

omit hkind in
theorem additional_rule_ne_deny : ¬ additional.policy.Rule env cwd q .deny := by
  intro h
  obtain ⟨e, he, -, haccess⟩ := rule_iff.1 h
  exact hdeny e he haccess

theorem joined_resolveAccess_ne_deny (h : base.resolveAccessWithCwd env p cwd ≠ .deny) :
    (base.joined additional).resolveAccessWithCwd env p cwd ≠ .deny := by
  obtain ⟨q, hbase⟩ := exists_nearest_of_ne_deny hkind h
  have hrule : (base.joined additional).Rule env cwd q _ := joined_rule_iff.2 (.inl hbase.rule)
  obtain ⟨q', hjoined⟩ :=
    exists_nearest ((joined_kind base additional).trans hkind) hrule hbase.above
  intro hdenied
  rw [hdenied] at hjoined
  rcases joined_rule_iff.1 hjoined.rule with hrule | hrule
  · -- the denial is the policy's own, and was the nearest there
    have hnearest : Nearest (base.Rule env cwd) p q' .deny :=
      hjoined.anti (fun y c _ hy => joined_rule_iff.2 (.inl hy)) hrule
    exact h (resolveAccess_eq hkind hnearest)
  · exact additional_rule_ne_deny hdeny hrule

theorem joined_resolveAccess_write_iff (h : base.resolveAccessWithCwd env p cwd = .write) :
    (base.joined additional).resolveAccessWithCwd env p cwd = .write ↔
      ¬ base.NarrowedAt additional env cwd p := by
  obtain ⟨b, hbase⟩ := exists_nearest_write hkind h
  have hrule : (base.joined additional).Rule env cwd b _ := joined_rule_iff.2 (.inl hbase.rule)
  obtain ⟨q, hjoined⟩ :=
    exists_nearest ((joined_kind base additional).trans hkind) hrule hbase.above
  constructor
  · rintro hwrite ⟨r, hr, hrp, hall⟩
    rw [hwrite] at hjoined
    have hqr := hall q (joined_rule_iff.1 hjoined.rule) hjoined.above
    exact hqr.2 (Nearest.antisymm hqr.1 (hjoined.nearest r .read (joined_rule_iff.2 (.inr hr)) hrp))
  · intro hnot
    have hne := joined_resolveAccess_ne_deny hkind hdeny
        (h ▸ nofun : base.resolveAccessWithCwd env p cwd ≠ .deny)
    cases haccess : (base.joined additional).resolveAccessWithCwd env p cwd with
    | write => rfl
    | deny => exact absurd haccess hne
    | read =>
      rw [haccess] at hjoined
      -- no entry that writes lies as near as the one that reads
      have hwrites (w : AbsolutePath) (hw : (base.joined additional).Rule env cwd w .write)
          (hwp : w <+: p) :
          w <+: q ∧ w ≠ q := by
        refine ⟨hjoined.nearest w _ hw hwp, ?_⟩
        rintro rfl
        exact absurd (hjoined.greatest _ hw) (by decide)
      refine absurd ⟨q, ?_, hjoined.above, fun w hw => hwrites w (joined_rule_iff.2 hw)⟩ hnot
      rcases joined_rule_iff.1 hjoined.rule with hrule | hrule
      · have hbq := hwrites b (joined_rule_iff.2 (.inl hbase.rule)) hbase.above
        exact absurd (Nearest.antisymm hbq.1 (hbase.nearest q _ hrule hjoined.above)) hbq.2
      · exact hrule

end Restricted

theorem joined_denied_iff (hkind : base.kind = .restricted) :
    ((base.joined additional).hasFullDiskWriteAccess = false ∧
      (base.joined additional).isMetadataWriteDenied env p cwd = true) ↔
        base.ProtectedAt additional env cwd p := by
  have hpaths : (base.joined additional).writePaths env cwd =
      base.writePaths env cwd ++ additional.policy.writePaths env cwd := by
    simp [writePaths, resolvedEntriesWithCwd, joined,
      AdditionalPermissionProfile.policy, restricted]
  rw [ProtectedAt, isMetadataWriteDenied_iff ((joined_kind base additional).trans hkind),
    metadataChildOfWritableRoot_eq, hpaths]
  simp only [joined_rule_iff]

theorem canWrite_eq_true_iff :
    base.canWritePathWithCwd env p cwd = true ↔ base.resolveAccessWithCwd env p cwd = .write ∧
      ¬ (base.hasFullDiskWriteAccess = false ∧ base.isMetadataWriteDenied env p cwd = true) := by
  cases hfull : base.hasFullDiskWriteAccess with
  | true =>
    rw [canWritePathWithCwd, hfull]
    cases base.resolveAccessWithCwd env p cwd <;> simp [FileSystemAccessMode.canWrite]
  | false => simp [canWrite_iff hfull]

/-- Additional permissions without denials keep what may be read. They keep what may be written just
when no entry narrows it to reading and none protects it. -/
theorem additional_permissions_keep_access (base : FileSystemSandboxPolicy)
    (additional : AdditionalPermissionProfile)
    (env : Env) (cwd p : AbsolutePath) (hdeny : ∀ e ∈ additional.entries, e.access ≠ .deny) :
    (base.canReadPathWithCwd env p cwd = true →
      (effectiveFileSystemSandboxPolicy base
        (some additional)).canReadPathWithCwd env p cwd = true) ∧
    (base.canWritePathWithCwd env p cwd = true →
      ((effectiveFileSystemSandboxPolicy base
        (some additional)).canWritePathWithCwd env p cwd = true ↔
        (base.kind = .restricted →
          ¬ base.NarrowedAt additional env cwd p ∧ ¬ base.ProtectedAt additional env cwd p))) := by
  by_cases hkind : base.kind = .restricted
  · have halike := alike_effective additional hkind
    rw [halike.same.canRead_eq, halike.canWrite_eq]
    constructor
    · intro h
      refine decide_eq_true (joined_resolveAccess_ne_deny hkind hdeny ?_)
      exact of_decide_eq_true h
    · intro h
      rw [canWrite_eq_true_iff, joined_denied_iff hkind,
        joined_resolveAccess_write_iff hkind hdeny (canWrite_eq_true_iff.1 h).1]
      exact ⟨fun h _ => h, fun h => h hkind⟩
  · rw [effective_of_ne_restricted hkind]
    exact ⟨id, fun h => iff_of_true h fun h => absurd h hkind⟩

/-- Write access to one more directory keeps what the policy gives elsewhere. -/
theorem additional_permissions_keep_access_elsewhere :
    let base : FileSystemSandboxPolicy := .restricted [⟨.path ["a".toList], .write, none⟩]
    let additional : AdditionalPermissionProfile :=
      { fileSystem := some { entries := [⟨.path ["b".toList], .write, none⟩] } }
    let env := bareEnv
    (∀ e ∈ additional.entries, e.access ≠ .deny) ∧
      (effectiveFileSystemSandboxPolicy base (some additional)).canReadPathWithCwd env ["a".toList,
        "x".toList] [] = true := by
  refine ⟨by decide,
    (additional_permissions_keep_access _ _ _ _ _ (by decide)).1 (by decide +kernel)⟩

/-- A permission to read below a writable directory takes write access away. -/
theorem additional_read_takes_write_away :
    let base : FileSystemSandboxPolicy := .restricted [⟨.path ["a".toList], .write, none⟩]
    let additional : AdditionalPermissionProfile :=
      { fileSystem := some { entries := [⟨.path ["a".toList, "b".toList], .read, none⟩] } }
    let env := bareEnv
    let p := ["a".toList, "b".toList, "x".toList]
    (∀ e ∈ additional.entries, e.access ≠ .deny) ∧ base.canWritePathWithCwd env p [] = true ∧
      (effectiveFileSystemSandboxPolicy base (some additional)).canWritePathWithCwd env p
        [] = false := by
  decide +kernel

end FileSystemSandboxPolicy

end OmniDoer.Permissions
