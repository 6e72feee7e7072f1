import OmniDoer.Verification.Permissions.Access

/-! # Access to the whole disk

What a policy says about the whole disk is read off its entries, before any of them is resolved.
`/tmp` is the one place where an entry that stands for the same path may lead nowhere. -/

namespace OmniDoer.Permissions

open Rust Unix Rules List

namespace FileSystemSandboxPolicy

variable {policy : FileSystemSandboxPolicy} {env : Env} {p q cwd : AbsolutePath}

variable (env cwd) in
theorem exists_of_hasRootAccess {predicate : FileSystemAccessMode → Bool}
    (h : policy.hasRootAccess predicate = true) :
    ∃ a, policy.Rule env cwd [] a ∧ predicate a = true := by
  simp only [hasRootAccess, Bool.and_eq_true, any_eq_true, decide_eq_true_eq] at h
  obtain ⟨-, e, he, hpath, haccess⟩ := h
  exact ⟨e.access, rule_iff.2 ⟨e, he, by rw [hpath]; rfl, rfl⟩, haccess⟩

theorem canWritePathWithCwd_of_full (hfull : policy.hasFullDiskWriteAccess = true) :
    policy.canWritePathWithCwd env p cwd = (policy.resolveAccessWithCwd env p cwd).canWrite := by
  rw [canWritePathWithCwd, hfull]
  cases (policy.resolveAccessWithCwd env p cwd).canWrite <;> rfl

/-- Two entries for one target lead to the same place, unless one stands for `/tmp` and there is no
such directory. -/
theorem resolveEntryPath_of_sharesTarget {left right : FileSystemPath}
    (hshare : fileSystemPathsShareTarget left right = true)
    (hright : resolveEntryPath env right cwd = some q) :
    resolveEntryPath env left cwd = some q ∨
      right = .path slashTmp ∧ q = slashTmp ∧ left = .special .slashTmp ∧
        env.slashTmpIsDir = false := by
  cases right with
  | path right =>
    cases hright
    cases left with
    | path left =>
      left
      exact congrArg some (of_decide_eq_true hshare)
    | globPattern => cases hshare
    | special value =>
      cases value with
      | root =>
        left
        exact congrArg some (of_decide_eq_true hshare).symm
      | slashTmp =>
        have hq : q = slashTmp := of_decide_eq_true hshare
        cases hdir : env.slashTmpIsDir with
        | true =>
          left
          simp [resolveEntryPath, resolveFileSystemPath, resolveFileSystemSpecialPath, hdir, hq]
        | false => exact .inr ⟨by rw [hq], hq, rfl, rfl⟩
      | _ => cases hshare
  | globPattern => cases hright
  | special value =>
    left
    cases left with
    | path left =>
      cases value with
      | root =>
        rw [show left = [] from of_decide_eq_true hshare]
        exact hright
      | slashTmp =>
        rw [show left = slashTmp from of_decide_eq_true hshare]
        cases hdir : env.slashTmpIsDir with
        | true => simpa [resolveEntryPath, resolveFileSystemPath, resolveFileSystemSpecialPath,
          hdir] using hright
        | false => simp [resolveEntryPath, resolveFileSystemPath, resolveFileSystemSpecialPath,
          hdir] at hright
      | _ => cases hshare
    | globPattern => cases hshare
    | special left =>
      have hsame : left = value := by
        cases left <;> cases value <;>
          simp_all [fileSystemPathsShareTarget, specialPathsShareTarget]
      rw [hsame]
      exact hright

section Restricted

variable (hkind : policy.kind = .restricted)
include hkind

variable (env cwd) in
theorem rootWritable_of_full (hfull : policy.hasFullDiskWriteAccess = true) :
    policy.Rule env cwd [] .write := by
  simp only [hasFullDiskWriteAccess, hkind, Bool.and_eq_true] at hfull
  obtain ⟨a, hrule, ha⟩ := exists_of_hasRootAccess env cwd hfull.1
  rwa [show a = .write from of_decide_eq_true ha] at hrule

/-- Where an entry leads, some entry gives write access, unless the place is `/tmp`. -/
theorem writable_of_full (hfull : policy.hasFullDiskWriteAccess = true) {e : FileSystemSandboxEntry}
    (he : e ∈ policy.entries) (hpath : resolveEntryPath env e.path cwd = some q) :
    e.access ≠ .deny ∧ (policy.Rule env cwd q .write ∨
      e.path = .path slashTmp ∧ q = slashTmp ∧ env.slashTmpIsDir = false) := by
  have hnot : policy.isWriteNarrowing e = false := by
    simp only [hasFullDiskWriteAccess, hkind, hasWriteNarrowingEntries, decide_true, Bool.true_and,
      Bool.and_eq_true, Bool.not_eq_true', any_eq_false] at hfull
    simpa using hfull.2 e he
  cases haccess : e.access with
  | write => exact ⟨nofun, .inl (rule_iff.2 ⟨e, he, hpath, haccess⟩)⟩
  | read =>
    refine ⟨nofun, ?_⟩
    -- a read entry is either at the root or overridden
    have hoverride : policy.hasSameTargetWriteOverride e = true ∨ q = [] := by
      unfold isWriteNarrowing at hnot
      rw [haccess] at hnot
      simp only [FileSystemAccessMode.canWrite, reduceCtorEq, decide_false, if_false] at hnot
      split at hnot
      · exact .inl (by simpa using hnot)
      · cases hnot
      · rename_i h
        rw [h] at hpath
        cases hpath
        exact .inr rfl
      · rename_i h
        rw [h] at hpath
        cases hpath
      · rename_i h
        rw [h] at hpath
        cases hpath
      · exact .inl (by simpa using hnot)
    rcases hoverride with h | rfl
    · simp only [hasSameTargetWriteOverride, any_eq_true, Bool.and_eq_true] at h
      obtain ⟨c, hc, ⟨hwrite, -⟩, hshare⟩ := h
      rcases resolveEntryPath_of_sharesTarget hshare hpath with h | ⟨h, hq, -, hdir⟩
      · exact .inl (rule_iff.2 ⟨c, hc, h, of_decide_eq_true hwrite⟩)
      · exact .inr ⟨h, hq, hdir⟩
    · exact .inl (rootWritable_of_full env cwd hkind hfull)
  | deny =>
    exfalso
    have hoverride : policy.hasSameTargetWriteOverride e = false := by
      rw [hasSameTargetWriteOverride, any_eq_false]
      intro c _ h
      simp only [Bool.and_eq_true] at h
      have hlt : FileSystemAccessMode.deny < c.access := haccess ▸ of_decide_eq_true h.1.2
      rw [show c.access = .write from of_decide_eq_true h.1.1] at hlt
      exact absurd hlt (by decide)
    unfold isWriteNarrowing at hnot
    rw [haccess, hoverride] at hnot
    simp only [FileSystemAccessMode.canWrite, reduceCtorEq, decide_false, if_false] at hnot
    split at hnot
    · cases hnot
    · cases hnot
    · cases hnot
    · rename_i h
      rw [h] at hpath
      cases hpath
    · rename_i h
      rw [h] at hpath
      cases hpath
    · cases hnot

end Restricted

/-- `/tmp` is a directory, or no entry for the path `/tmp` lacks write access, or an entry that
leads there has it. -/
def SlashTmpWritable (policy : FileSystemSandboxPolicy) (env : Env) (cwd : AbsolutePath) : Prop :=
  policy.kind = .restricted → env.slashTmpIsDir = true ∨
    (∀ e ∈ policy.entries, e.path = .path slashTmp → e.access = .write) ∨
    ∃ e ∈ policy.entries, e.access = .write ∧ resolveEntryPath env e.path cwd = some slashTmp

theorem canRead_of_full (hfull : policy.hasFullDiskReadAccess = true) (p : AbsolutePath) :
    policy.canReadPathWithCwd env p cwd = true := by
  rw [canReadPathWithCwd]
  by_cases hkind : policy.kind = .restricted
  · rw [hasFullDiskReadAccess] at hfull
    simp only [Bool.and_eq_true, hasDeniedReadRestrictions, hkind, decide_true, Bool.true_and,
      Bool.not_eq_true', any_eq_false, decide_eq_true_eq] at hfull
    obtain ⟨a, hroot, -⟩ := exists_of_hasRootAccess env cwd hfull.1
    obtain ⟨q, hnearest⟩ := exists_nearest hkind hroot (List.nil_prefix (l := p))
    obtain ⟨e, he, -, haccess⟩ := rule_iff.1 hnearest.rule
    exact decide_eq_true (haccess ▸ hfull.2 e he)
  · rw [resolveAccess_of_ne_restricted hkind]
    rfl

theorem canWrite_iff_of_full (hfull : policy.hasFullDiskWriteAccess = true) :
    (∀ p, policy.canWritePathWithCwd env p cwd = true) ↔ policy.SlashTmpWritable env cwd := by
  simp only [canWritePathWithCwd_of_full hfull]
  by_cases hkind : policy.kind = .restricted
  swap
  · simp [resolveAccess_of_ne_restricted hkind, SlashTmpWritable, hkind,
      FileSystemAccessMode.canWrite]
  constructor
  · intro hwrite _
    by_contra hnot
    simp only [not_or, not_forall] at hnot
    obtain ⟨-, ⟨e, he, hpath, -⟩, hnone⟩ := hnot
    have hrule : policy.Rule env cwd slashTmp e.access :=
      rule_iff.2 ⟨e, he, by rw [hpath]; rfl, rfl⟩
    obtain ⟨q, hnearest⟩ := exists_nearest hkind hrule (prefix_refl slashTmp)
    have hq : q = slashTmp :=
      Nearest.antisymm hnearest.above (hnearest.nearest _ _ hrule (prefix_refl _))
    obtain ⟨c, hc, hcpath, hcaccess⟩ := rule_iff.1 hnearest.rule
    rw [show policy.resolveAccessWithCwd env slashTmp cwd =
      .write from of_decide_eq_true (hwrite slashTmp)] at hcaccess
    exact hnone ⟨c, hc, hcaccess, hq ▸ hcpath⟩
  · intro htmp p
    obtain ⟨q, hnearest⟩ := exists_nearest hkind (rootWritable_of_full env cwd hkind hfull)
      (List.nil_prefix (l := p))
    obtain ⟨e, he, hpath, haccess⟩ := rule_iff.1 hnearest.rule
    obtain ⟨hdeny, hwrite⟩ := writable_of_full hkind hfull he hpath
    -- some entry at the nearest place gives write access, and none denies it
    have hrule : policy.Rule env cwd q .write := by
      rcases hwrite with h | ⟨htmpPath, rfl, hdir⟩
      · exact h
      · rcases htmp hkind with h | h | ⟨c, hc, hcaccess, hcpath⟩
        · rw [h] at hdir
          cases hdir
        · exact rule_iff.2 ⟨e, he, hpath, h e he htmpPath⟩
        · exact rule_iff.2 ⟨c, hc, hcpath, hcaccess⟩
    have hle := hnearest.greatest _ hrule
    rw [haccess] at hdeny
    cases h : policy.resolveAccessWithCwd env p cwd with
    | write => rfl
    | read =>
      rw [h] at hle
      exact absurd hle (by decide)
    | deny => exact absurd h hdeny

/-- A policy that reports access to the whole disk lets every path be read; it lets every path be
written just when no entry for `/tmp` is left without the override it was read with. -/
theorem full_disk_access_truthful (policy : FileSystemSandboxPolicy) (env : Env)
    (cwd : AbsolutePath) :
    (policy.hasFullDiskReadAccess = true → ∀ p, policy.canReadPathWithCwd env p cwd = true) ∧
    (policy.hasFullDiskWriteAccess = true →
      ((∀ p, policy.canWritePathWithCwd env p cwd = true) ↔ policy.SlashTmpWritable env cwd)) :=
  ⟨canRead_of_full, canWrite_iff_of_full⟩

/-- The write entry for the temporary directory hides the read entry for `/tmp`, though there is no
such directory. -/
theorem missing_slash_tmp_not_writable :
    let policy : FileSystemSandboxPolicy := .restricted
      [⟨.special .root, .write, none⟩, ⟨.path slashTmp, .read, none⟩,
        ⟨.special .slashTmp, .write, none⟩]
    let env := bareEnv
    policy.hasFullDiskWriteAccess = true ∧
      policy.canWritePathWithCwd env (slashTmp ++ ["x".toList]) [] = false := by
  decide +kernel

end FileSystemSandboxPolicy

end OmniDoer.Permissions
