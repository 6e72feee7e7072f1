import OmniDoer.Verification.Permissions.WritableRoots

/-! # Denied reads

The tools deny what lies in the subtree of any entry that denies. The sandbox lets the nearest entry
decide, so an entry within a denied subtree opens a path for the sandbox and not for the tools. -/

namespace OmniDoer.Permissions

open Rust Unix Rules FileSystemSandboxPolicy List

/-- No entry is a pattern. -/
def FileSystemSandboxPolicy.Exact (policy : FileSystemSandboxPolicy) : Prop :=
  ∀ e ∈ policy.entries, ∀ pattern, e.path ≠ .globPattern pattern

variable {env : Env} {fs : FileSystem} {policy : FileSystemSandboxPolicy} {p q cwd : AbsolutePath}
  (hkind : policy.kind = .restricted)
include hkind

theorem getUnreadableGlobs_eq_nil (hexact : policy.Exact) :
    policy.getUnreadableGlobsWithCwd env cwd = [] := by
  rw [FileSystemSandboxPolicy.getUnreadableGlobsWithCwd, if_neg (not_not.2 hkind),
    filterMap_eq_nil_iff]
  intro e he
  have hpath := hexact e (mem_filter.1 he).1
  cases h : e.path with
  | globPattern pattern => exact absurd h (hpath pattern)
  | path | special => rfl

theorem mem_getUnreadableRoots (hlinks : fs.NoSymlinks) {d : AbsolutePath} :
    d ∈ policy.getUnreadableRootsWithCwd env fs cwd ↔ d ≠ [] ∧ policy.Rule env cwd d .deny := by
  rw [FileSystemSandboxPolicy.getUnreadableRootsWithCwd, if_neg (not_not.2 hkind), mem_dedupPaths]
  simp only [hlinks.normalizeEffectiveAbsolutePath_eq, mem_map, mem_filter,
    Bool.and_eq_true, decide_eq_true_eq, not_mem_nil, not_false_eq_true, and_true]
  constructor
  · rintro ⟨⟨path, access⟩, ⟨hmem, ⟨rfl, -⟩, hne⟩, rfl⟩
    exact ⟨hne, hmem⟩
  · rintro ⟨hne, hrule⟩
    refine ⟨⟨d, .deny⟩, ⟨hrule, ⟨rfl, ?_⟩, hne⟩, rfl⟩
    have hle := (FileSystemSandboxPolicy.exists_strongest hkind hrule).greatest _ hrule
    rw [FileSystemSandboxPolicy.canReadPathWithCwd, FileSystemAccessMode.deny_le_iff.1 hle]
    rfl

omit hkind in
theorem normalizedAndCanonicalCandidates_eq (hlinks : fs.NoSymlinks) (path : AbsolutePath) :
    normalizedAndCanonicalCandidates fs path = [path] := by
  rw [normalizedAndCanonicalCandidates]
  cases hpath : fs.canonicalize path with
  | none => rfl
  | some path' => simp [hlinks.canonical path path' hpath]

theorem isReadDenied_iff (hlinks : fs.NoSymlinks) (hexact : policy.Exact) :
    (ReadDenyMatcher.new env fs policy cwd).any (·.isReadDenied fs q) = true ↔
      ∃ d, d ≠ [] ∧ policy.Rule env cwd d .deny ∧ d <+: q := by
  rw [ReadDenyMatcher.new]
  split
  · -- there are no denials at all
    rename_i hnone
    refine iff_of_false nofun ?_
    rintro ⟨d, -, hrule, -⟩
    obtain ⟨e, he, -, haccess⟩ := FileSystemSandboxPolicy.rule_iff.1 hrule
    simp only [FileSystemSandboxPolicy.hasDeniedReadRestrictions, hkind, decide_true, Bool.true_and,
      Bool.not_eq_true', any_eq_false, decide_eq_true_eq] at hnone
    exact hnone e he haccess
  · simp only [Option.any_some, ReadDenyMatcher.isReadDenied,
      getUnreadableGlobs_eq_nil hkind hexact, map_nil, any_nil, Bool.false_eq_true, if_false,
      filterMap_nil, Bool.or_false, any_eq_true, mem_map,
      normalizedAndCanonicalCandidates_eq hlinks, mem_singleton, List.isPrefixOf_iff_prefix]
    constructor
    · rintro ⟨_, ⟨d, hd, rfl⟩, _, rfl, x, hx, hprefix⟩
      obtain ⟨hne, hrule⟩ := (mem_getUnreadableRoots hkind hlinks).1 hd
      exact ⟨d, hne, hrule, mem_singleton.1 hx ▸ hprefix⟩
    · rintro ⟨d, hne, hrule, hprefix⟩
      exact ⟨_, ⟨d, (mem_getUnreadableRoots hkind hlinks).2 ⟨hne, hrule⟩, rfl⟩, q, rfl, d,
        mem_singleton_self d, hprefix⟩

/-- The nearest entry opens a path within the subtree of an entry that denies. -/
def FileSystemSandboxPolicy.Reopened (policy : FileSystemSandboxPolicy) (env : Env)
    (cwd p : AbsolutePath) : Prop :=
  ∃ d q a, policy.Rule env cwd d .deny ∧ d <+: p ∧ Nearest (policy.Rule env cwd) p q a ∧ a ≠ .deny

/-- The check of the tools agrees with the policy just when the path is not opened again. -/
theorem read_check_agrees_iff (hlinks : fs.NoSymlinks) (hexact : policy.Exact)
    (hroot : ¬ policy.Rule env cwd [] .deny) (hcovered : ∃ q a, policy.Rule env cwd q a ∧ q <+: p) :
    ((ReadDenyMatcher.new env fs policy cwd).any (·.isReadDenied fs p) = true ↔
        policy.resolveAccessWithCwd env p cwd = .deny) ↔ ¬ policy.Reopened env cwd p := by
  obtain ⟨q₀, a₀, hrule₀, habove₀⟩ := hcovered
  obtain ⟨q, hnearest⟩ := FileSystemSandboxPolicy.exists_nearest hkind hrule₀ habove₀
  have hne {d : AbsolutePath} (hd : policy.Rule env cwd d .deny) : d ≠ [] := by
    rintro rfl
    exact hroot hd
  rw [isReadDenied_iff hkind hlinks hexact]
  constructor
  · rintro hagree ⟨d, q', a, hd, hdp, hq', ha⟩
    refine ha ((FileSystemSandboxPolicy.resolveAccess_eq hkind hq').symm.trans ?_)
    exact hagree.1 ⟨d, hne hd, hd, hdp⟩
  · intro hnot
    constructor
    · rintro ⟨d, -, hd, hdp⟩
      by_contra hopen
      exact hnot ⟨d, q, _, hd, hdp, hnearest, hopen⟩
    · intro hdeny
      rw [hdeny] at hnearest
      exact ⟨q, hne hnearest.rule, hnearest.rule, hnearest.above⟩

omit hkind

/-- A denied directory in a readable one. -/
def denyBelowRead (entries : List FileSystemSandboxEntry) : FileSystemSandboxPolicy :=
  .restricted (⟨.path ["a".toList], .read, none⟩ ::
    ⟨.path ["a".toList, "b".toList], .deny, none⟩ :: entries)

theorem read_check_agrees_beside :
    let policy := denyBelowRead []
    let env := bareEnv
    ¬ policy.Reopened env [] ["a".toList, "b".toList] := by
  intro policy env
  refine (read_check_agrees_iff rfl noSymlinks_emptyFileSystem ?_ ?_ ⟨["a".toList], .read, ?_,
    by decide⟩).1 ?_
  · simp [FileSystemSandboxPolicy.Exact, policy, denyBelowRead, FileSystemSandboxPolicy.restricted]
  · unfold FileSystemSandboxPolicy.Rule
    decide +kernel
  · unfold FileSystemSandboxPolicy.Rule
    decide +kernel
  · decide +kernel

/-- A readable directory within a denied one is open for the sandbox only. -/
theorem reopened_read_denied :
    let policy := denyBelowRead [⟨.path ["a".toList, "b".toList, "c".toList], .read, none⟩]
    let env := bareEnv
    let p := ["a".toList, "b".toList, "c".toList]
    (ReadDenyMatcher.new env emptyFileSystem policy []).any
      (·.isReadDenied emptyFileSystem p) = true ∧
      policy.resolveAccessWithCwd env p [] = .read := by
  decide +kernel

end OmniDoer.Permissions
