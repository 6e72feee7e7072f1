import OmniDoer.Verification.Permissions.Access

/-! # Protected directories

Below an entry with write access, a protected name is not writable unless an entry with write access
lies within it. Of several entries that a protected name follows, the first of the policy counts. -/

namespace OmniDoer.Permissions

open Rust Unix Rules List

/-- The protected directory below `w` on the way to `target`. -/
def protectedChild (target w : AbsolutePath) : Option (AbsolutePath × Text) :=
  if w.isPrefixOf target then do
    let name ← metadataPathName (← (target.drop w.length).head?)
    return (w ++ [name], name)
  else none

theorem metadataPathName_eq_some {name n : Text} :
    metadataPathName name = some n ↔ name = n ∧ n ∈ protectedMetadataPathNames := by
  rw [metadataPathName]
  constructor
  · intro h
    have heq : n = name := by simpa using find?_some h
    exact ⟨heq.symm, mem_of_find?_eq_some h⟩
  · rintro ⟨rfl, hmem⟩
    cases hfind : protectedMetadataPathNames.find? (· = name) with
    | none => simpa using find?_eq_none.1 hfind name hmem
    | some found => simpa using find?_some hfind

theorem protectedChild_eq_some {target w m : AbsolutePath} {n : Text} :
    protectedChild target w = some (m, n) ↔
      n ∈ protectedMetadataPathNames ∧ m = w ++ [n] ∧ m <+: target := by
  rw [protectedChild]
  by_cases hw : w <+: target
  · obtain ⟨rest, rfl⟩ := hw
    rw [if_pos (List.isPrefixOf_iff_prefix.2 (prefix_append _ _)), drop_left]
    cases rest with
    | nil =>
      refine iff_of_false (by simp) ?_
      rintro ⟨-, rfl, hprefix⟩
      have hle := hprefix.length_le
      simp only [append_nil, length_append, length_singleton] at hle
      omega
    | cons name rest =>
      have hchild : w ++ [n] <+: w ++ name :: rest ↔ name = n := by
        simp [eq_comm]
      simp only [head?_cons, Option.bind_eq_bind, Option.bind_some, Option.pure_def,
        Option.bind_eq_some_iff, metadataPathName_eq_some, Option.some.injEq, Prod.mk.injEq]
      constructor
      · rintro ⟨_, ⟨rfl, hmem⟩, rfl, rfl⟩
        exact ⟨hmem, rfl, hchild.2 rfl⟩
      · rintro ⟨hmem, rfl, hprefix⟩
        exact ⟨n, ⟨hchild.1 hprefix, hmem⟩, rfl, rfl⟩
  · rw [if_neg (by rwa [List.isPrefixOf_iff_prefix])]
    refine iff_of_false nofun ?_
    rintro ⟨-, rfl, hprefix⟩
    exact hw ((prefix_append _ _).trans hprefix)

/-- The first protected directory on the way to a path is the first on the way to every place within
it that lies on the way. -/
theorem findSome?_protectedChild_between {p x : AbsolutePath} {mn : AbsolutePath × Text}
    {ws : List AbsolutePath}
    (h : ws.findSome? (protectedChild p) = some mn) (hm : mn.1 <+: x) (hx : x <+: p) :
    ws.findSome? (protectedChild x) = some mn := by
  induction ws with
  | nil => cases h
  | cons w ws ih =>
    rw [findSome?_cons] at h ⊢
    cases hw : protectedChild p w with
    | some mn' =>
      rw [hw] at h
      cases h
      obtain ⟨hname, heq, -⟩ := protectedChild_eq_some.1 hw
      rw [protectedChild_eq_some.2 ⟨hname, heq, hm⟩]
    | none =>
      rw [hw] at h
      cases hxw : protectedChild x w with
      | some mn' =>
        obtain ⟨hname, hm, hprefix⟩ := protectedChild_eq_some.1 hxw
        rw [protectedChild_eq_some.2 ⟨hname, hm, hprefix.trans hx⟩] at hw
        cases hw
      | none => exact ih h

namespace FileSystemSandboxPolicy

variable {policy : FileSystemSandboxPolicy} {env : Env} {p q x m cwd : AbsolutePath} {n : Text}

/-- The places with write access, in the order of the entries. -/
def writePaths (policy : FileSystemSandboxPolicy) (env : Env) (cwd : AbsolutePath) :
    List AbsolutePath :=
  ((policy.resolvedEntriesWithCwd env cwd).filter (·.access.canWrite)).map (·.path)

theorem mem_writePaths : q ∈ policy.writePaths env cwd ↔ policy.Rule env cwd q .write := by
  simp only [writePaths, mem_map, mem_filter, FileSystemAccessMode.canWrite, decide_eq_true_eq]
  constructor
  · rintro ⟨⟨path, access⟩, ⟨hmem, rfl⟩, rfl⟩
    exact hmem
  · intro h
    exact ⟨_, ⟨h, rfl⟩, rfl⟩

theorem metadataChildOfWritableRoot_eq :
    policy.metadataChildOfWritableRoot env p cwd =
      (policy.writePaths env cwd).findSome? (protectedChild p) := by
  rw [writePaths, findSome?_map]
  rfl

variable (h : policy.metadataChildOfWritableRoot env p cwd = some (m, n))

include h in
theorem metadataChild_spec :
    ∃ w, policy.Rule env cwd w .write ∧ m = w ++ [n] ∧ n ∈ protectedMetadataPathNames ∧
      m <+: p := by
  rw [metadataChildOfWritableRoot_eq] at h
  obtain ⟨w, hw, hchild⟩ := exists_of_findSome?_eq_some h
  obtain ⟨hname, hm, hprefix⟩ := protectedChild_eq_some.1 hchild
  exact ⟨w, mem_writePaths.1 hw, hm, hname, hprefix⟩

include h in
theorem metadataChild_between (hm : m <+: x)
    (hx : x <+: p) : policy.metadataChildOfWritableRoot env x cwd = some (m, n) := by
  rw [metadataChildOfWritableRoot_eq] at h ⊢
  exact findSome?_protectedChild_between h hm hx

theorem exists_metadataChild (hrule : policy.Rule env cwd q .write)
    (hname : n ∈ protectedMetadataPathNames)
    (hx : q ++ [n] <+: p) : ∃ m n, policy.metadataChildOfWritableRoot env p cwd = some (m, n) := by
  cases hp : policy.metadataChildOfWritableRoot env p cwd with
  | some child => exact ⟨child.1, child.2, rfl⟩
  | none =>
    rw [metadataChildOfWritableRoot_eq, findSome?_eq_none_iff] at hp
    have hnone := hp q (mem_writePaths.2 hrule)
    rw [protectedChild_eq_some.2 ⟨hname, rfl, hx⟩] at hnone
    cases hnone

theorem isMetadataWriteDenied_iff (hkind : policy.kind = .restricted) :
    policy.isMetadataWriteDenied env p cwd = true ↔
      ∃ m n, policy.metadataChildOfWritableRoot env p cwd = some (m, n) ∧
        ∀ w, policy.Rule env cwd w .write → m <+: w → ¬ w <+: p := by
  rw [isMetadataWriteDenied, if_neg (not_not.2 hkind)]
  cases hchild : policy.metadataChildOfWritableRoot env p cwd with
  | none => simp
  | some child =>
    obtain ⟨m, n⟩ := child
    simp only [Option.some.injEq, Prod.mk.injEq, Bool.not_eq_true']
    rw [hasExplicitWriteEntryForMetadataPath, any_eq_false]
    simp only [Bool.and_eq_true, List.isPrefixOf_iff_prefix, FileSystemAccessMode.canWrite,
      decide_eq_true_eq]
    constructor
    · intro h
      exact ⟨m, n, ⟨rfl, rfl⟩, fun w hw hmw hwp => h _ hw ⟨⟨rfl, hwp⟩, hmw⟩⟩
    · rintro ⟨_, _, ⟨rfl, rfl⟩, h⟩ ⟨path, access⟩ hmem ⟨⟨haccess, hpath⟩, hm⟩
      exact h path (haccess ▸ hmem) hm hpath

theorem not_denied_of_rule (hkind : policy.kind = .restricted)
    (hrule : policy.Rule env cwd q .write) :
    policy.isMetadataWriteDenied env q cwd = false := by
  rw [Bool.eq_false_iff, ne_eq, isMetadataWriteDenied_iff hkind]
  rintro ⟨m, n, hchild, hnone⟩
  obtain ⟨-, -, -, -, hprefix⟩ := metadataChild_spec hchild
  exact hnone q hrule hprefix (prefix_refl q)

theorem canWrite_iff (hfull : policy.hasFullDiskWriteAccess = false) :
    policy.canWritePathWithCwd env p cwd = true ↔
      policy.resolveAccessWithCwd env p cwd = .write ∧
        policy.isMetadataWriteDenied env p cwd = false := by
  rw [canWritePathWithCwd, hfull]
  cases h : policy.resolveAccessWithCwd env p cwd <;> simp [FileSystemAccessMode.canWrite]

end FileSystemSandboxPolicy

end OmniDoer.Permissions
