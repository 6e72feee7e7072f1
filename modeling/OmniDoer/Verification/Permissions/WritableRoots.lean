import OmniDoer.Verification.Permissions.Metadata

/-! # Writable roots

A sandbox enforces a policy as a union of writable roots, each with the places that are carved out
of it. A root knows the protected names below itself, and not those below the roots within it. -/

namespace OmniDoer.Permissions

open Rust Unix Rules List

section FileSystem

/-- A file system without symbolic links. -/
structure FileSystem.NoSymlinks (fs : FileSystem) : Prop where
  notSymlink : ∀ path, fs.isSymlink path = false
  canonical : ∀ path path', fs.canonicalize path = some path' → path' = path

variable {fs : FileSystem}

theorem FileSystem.NoSymlinks.normalizeEffectiveAbsolutePath_eq (h : fs.NoSymlinks)
    (path : AbsolutePath) :
    fs.normalizeEffectiveAbsolutePath path = path := by
  have hcanonical (path : AbsolutePath) : fs.canonicalizePreservingSymlinks path = path := by
    rw [FileSystem.canonicalizePreservingSymlinks]
    cases hpath : fs.canonicalize path with
    | none => rfl
    | some path' =>
      dsimp only
      rw [h.canonical path path' hpath, if_neg fun h => h.2 rfl]
  rw [FileSystem.normalizeEffectiveAbsolutePath]
  cases hfind : (FileSystem.ancestors path).find? fs.present with
  | none => rfl
  | some ancestor =>
    have hmem := mem_of_find?_eq_some hfind
    rw [FileSystem.ancestors, mem_reverse, mem_inits] at hmem
    obtain ⟨rest, rfl⟩ := hmem
    dsimp only
    rw [hcanonical, drop_left]

theorem mem_dedupPaths {seen paths : List AbsolutePath} {path : AbsolutePath} :
    path ∈ dedupPaths seen paths ↔ path ∈ paths ∧ path ∉ seen := by
  induction paths generalizing seen with
  | nil => simp [dedupPaths]
  | cons first rest ih =>
    rw [dedupPaths]
    split
    · rename_i hseen
      rw [ih, mem_cons]
      constructor
      · exact fun h => ⟨.inr h.1, h.2⟩
      · rintro ⟨rfl | h, hnot⟩
        · exact absurd hseen hnot
        · exact ⟨h, hnot⟩
    · rename_i hseen
      rw [mem_cons, ih, mem_cons, mem_cons]
      constructor
      · rintro (rfl | h)
        · exact ⟨.inl rfl, hseen⟩
        · exact ⟨.inr h.1, fun h' => h.2 (.inr h')⟩
      · rintro ⟨rfl | h, hnot⟩
        · exact .inl rfl
        · by_cases heq : path = first
          · exact .inl heq
          · exact .inr ⟨h, fun h' => h'.elim heq hnot⟩

theorem WritableRoot.isPathWritable_iff {root : WritableRoot} {p : AbsolutePath} :
    root.isPathWritable p = true ↔ root.root <+: p ∧ (∀ s ∈ root.readOnlySubpaths, ¬ s <+: p) ∧
      ∀ c ∈ root.protectedMetadataNames, ¬ root.root ++ [c] <+: p := by
  simp only [isPathWritable, pathContainsProtectedMetadataName, Bool.and_eq_true, Bool.not_eq_true',
    List.isPrefixOf_iff_prefix, any_eq_false, and_assoc]
  refine and_congr_right fun hroot => and_congr_right fun _ => ?_
  obtain ⟨rest, rfl⟩ := hroot
  have hstarts : root.root.isPrefixOf (root.root ++ rest) = true := by simp
  rw [hstarts, Bool.true_and, drop_left]
  cases rest with
  | nil =>
    refine iff_of_true rfl fun c _ h => ?_
    have hle := h.length_le
    simp only [append_nil, length_append, length_singleton] at hle
    omega
  | cons name rest =>
    simp only [head?_cons, Option.any_some, decide_eq_false_iff_not, prefix_append_right_inj,
      cons_prefix_cons, List.nil_prefix, and_true]
    exact ⟨fun h c hc heq => h (heq ▸ hc), fun h hmem => h name hmem rfl⟩

end FileSystem

namespace FileSystemSandboxPolicy

variable {policy : FileSystemSandboxPolicy} {env : Env} {fs : FileSystem}
  {p q r w cwd : AbsolutePath}
  {a : FileSystemAccessMode} {n : Text}

/-- The access that the entries for one place give together. -/
def Strongest (policy : FileSystemSandboxPolicy) (env : Env) (cwd q : AbsolutePath)
    (a : FileSystemAccessMode) : Prop :=
  Nearest (policy.Rule env cwd) q q a

section Restricted

variable (hkind : policy.kind = .restricted)
include hkind

theorem exists_strongest (hrule : policy.Rule env cwd q a) :
    policy.Strongest env cwd q (policy.resolveAccessWithCwd env q cwd) := by
  obtain ⟨q', h⟩ := exists_nearest hkind hrule (prefix_refl q)
  obtain rfl : q' = q := Nearest.antisymm h.above (h.nearest q a hrule (prefix_refl q))
  exact h

theorem canWrite_iff_strongest (hfull : policy.hasFullDiskWriteAccess = false)
    (hrule : policy.Rule env cwd q a) :
    policy.canWritePathWithCwd env q cwd = true ↔ policy.Strongest env cwd q .write := by
  rw [canWrite_iff hfull]
  constructor
  · rintro ⟨haccess, -⟩
    exact haccess ▸ exists_strongest hkind hrule
  · intro h
    exact ⟨resolveAccess_eq hkind h, not_denied_of_rule hkind h.rule⟩

/-- Below a writable root a protected name without an entry is taken away just when it is the first
on the way to itself. -/
theorem canWrite_child_iff (hfull : policy.hasFullDiskWriteAccess = false)
    (hr : policy.Strongest env cwd r .write) (hnone : ∀ a, ¬ policy.Rule env cwd (r ++ [n]) a) :
    policy.canWritePathWithCwd env (r ++ [n]) cwd = false ↔
      policy.metadataChildOfWritableRoot env (r ++ [n]) cwd = some (r ++ [n], n) := by
  have hnearest : Nearest (policy.Rule env cwd) (r ++ [n]) r .write := by
    refine ⟨prefix_append _ _, hr.rule, hr.greatest, fun y c hy hyr => ?_⟩
    rcases prefix_concat_iff.1 hyr with rfl | h
    · exact absurd hy (hnone c)
    · exact h
  rw [← Bool.not_eq_true, canWrite_iff hfull, resolveAccess_eq hkind hnearest, eq_self, true_and,
    Bool.not_eq_false, isMetadataWriteDenied_iff hkind]
  constructor
  · rintro ⟨m, n', hchild, hopen⟩
    obtain ⟨w, -, hm, -, hstarts⟩ := metadataChild_spec hchild
    rcases prefix_concat_iff.1 hstarts with h | h
    · rw [h] at hm hchild
      have hn : n = n' := by simpa using (append_inj' hm rfl).2
      rw [hchild, hn]
    · exact absurd (prefix_append r [n]) (hopen r hr.rule h)
  · intro hchild
    refine ⟨_, _, hchild, fun w hw hmw hwm => ?_⟩
    exact hnone _ (Nearest.antisymm hwm hmw ▸ hw)

end Restricted

/-- Two writable roots, one within the other, and a protected name below the inner one that is not
writable, which nothing keeps the outer one from writing. -/
structure Exposed (policy : FileSystemSandboxPolicy) (env : Env) (fs : FileSystem)
    (cwd r w : AbsolutePath) (n : Text) :
    Prop where
  outer : policy.Strongest env cwd r .write
  inner : policy.Strongest env cwd w .write
  below : r <+: w
  ne : r ≠ w
  unlisted : ∀ a, ¬ policy.Rule env cwd (w ++ [n]) a
  denied : policy.metadataChildOfWritableRoot env (w ++ [n]) cwd = some (w ++ [n], n)
  /-- No entry in between takes write access away. -/
  uncarved : ∀ q a, policy.Strongest env cwd q a → r <+: q → q <+: w → a = .write
  /-- No directory of the outer root that is read-only by default contains the name. -/
  undefaulted : ∀ s ∈ defaultReadOnlySubpathsForWritableRoot env fs r (decide (cwd = r)),
    s <+: w ++ [n] →
    ∃ a, policy.Rule env cwd s a
  /-- The inner root is not within a protected name of the outer one. -/
  unprotected : ∀ c ∈ protectedMetadataPathNames, r ++ [c] <+: w →
    (∀ a, ¬ policy.Rule env cwd (r ++ [c]) a) →
    policy.metadataChildOfWritableRoot env (r ++ [c]) cwd ≠ some (r ++ [c], c)

section Roots

variable (hlinks : fs.NoSymlinks) (hkind : policy.kind = .restricted)
  (hfull : policy.hasFullDiskWriteAccess = false)
include hlinks hkind hfull

theorem mem_writableRoots {root : WritableRoot} :
    root ∈ policy.getWritableRootsWithCwd env fs cwd ↔
      ∃ r, policy.Strongest env cwd r .write ∧ policy.writableRootAt env fs cwd r = root := by
  have hmem (r : AbsolutePath) : r ∈ policy.writableEntries env cwd ↔
      policy.Strongest env cwd r .write := by
    simp only [writableEntries, mem_map, mem_filter, Bool.and_eq_true,
      FileSystemAccessMode.canWrite, decide_eq_true_eq]
    constructor
    · rintro ⟨⟨path, access⟩, ⟨hrule, rfl, hwrite⟩, rfl⟩
      exact (canWrite_iff_strongest hkind hfull hrule).1 hwrite
    · intro h
      exact ⟨⟨r, .write⟩, ⟨h.rule, rfl, (canWrite_iff_strongest hkind hfull h.rule).2 h⟩, rfl⟩
  have hid : fs.normalizeEffectiveAbsolutePath = id :=
    funext hlinks.normalizeEffectiveAbsolutePath_eq
  rw [getWritableRootsWithCwd, hfull, if_neg Bool.false_ne_true, hid, map_id, mem_map]
  simp [mem_dedupPaths, hmem]

omit hkind hfull in
theorem mem_protectedNames {c : Text} :
    c ∈ (policy.writableRootAt env fs cwd r).protectedMetadataNames ↔
      c ∈ protectedMetadataPathNames ∧ policy.canWritePathWithCwd env (r ++ [c]) cwd = false := by
  simp only [writableRootAt, protectedMetadataNamesForWritableRoot,
    hlinks.normalizeEffectiveAbsolutePath_eq, mem_filter, all_cons, Bool.and_eq_true,
    Bool.not_eq_true', all_eq_true, decide_eq_true_eq]
  refine and_congr_right fun _ => ⟨fun h => h.1, fun h => ⟨h, ?_⟩⟩
  rintro raw ⟨-, rfl⟩
  exact h

omit hkind hfull in
theorem carveoutPath_eq_some {raws : List AbsolutePath} (hraws : ∀ raw ∈ raws, raw = r)
    {s t : AbsolutePath} :
    carveoutPath env fs r raws s = some t ↔ s = t ∧ r <+: s ∧ r ≠ s := by
  have hnone (h : r.isPrefixOf s = false) : (raws.findSome? fun rawRoot =>
      if rawRoot.isPrefixOf s ∧ rawRoot ≠ s then
        some (env.resolveAgainst (['/'].intercalate (s.drop rawRoot.length)) r)
      else none) = none := by
    rw [findSome?_eq_none_iff]
    intro raw hraw
    rw [hraws raw hraw, h, if_neg fun h => Bool.false_ne_true h.1]
  rw [carveoutPath, hlinks.normalizeEffectiveAbsolutePath_eq, ← List.isPrefixOf_iff_prefix]
  by_cases heq : r = s
  · subst heq
    by_cases hroot : r = [] <;> simp [hroot]
  · have hne : s ≠ r := fun h => heq h.symm
    cases hbelow : r.isPrefixOf s with
    | true => by_cases hroot : r = [] <;> simp_all
    | false =>
      rw [hnone hbelow]
      simp [hne]

/-- What is carved out of a root: the defaults that no entry is about, and the places below it that
are not writable. -/
theorem mem_readOnlySubpaths {s : AbsolutePath} :
    s ∈ (policy.writableRootAt env fs cwd r).readOnlySubpaths ↔
      (s ∈ defaultReadOnlySubpathsForWritableRoot env fs r (decide (cwd = r)) ∧
        ∀ a, ¬ policy.Rule env cwd s a) ∨
      (r <+: s ∧ r ≠ s ∧ ∃ a, policy.Strongest env cwd s a ∧ a ≠ .write) := by
  have hraws : ∀ raw ∈ (policy.writableEntries env cwd).filter fun path => path = r, raw = r := by
    intro raw hraw
    simpa using (mem_filter.1 hraw).2
  simp only [writableRootAt, mem_dedupPaths, hlinks.normalizeEffectiveAbsolutePath_eq,
    mem_append, mem_filter, mem_filterMap, carveoutPath_eq_some hlinks hraws, not_mem_nil,
    not_false_eq_true, and_true]
  refine or_congr (and_congr_right fun _ => ?_) ?_
  · simp only [Bool.not_eq_true', any_eq_false, decide_eq_true_eq]
    constructor
    · exact fun h a hrule => h _ hrule rfl
    · rintro h ⟨path, access⟩ hmem rfl
      exact h access hmem
  · simp only [Bool.and_eq_true, Bool.not_eq_true', FileSystemAccessMode.canWrite,
      decide_eq_false_iff_not]
    constructor
    · rintro ⟨⟨path, access⟩, ⟨hrule, -, hdenied⟩, rfl, hbelow, hne⟩
      refine ⟨hbelow, hne, _, exists_strongest hkind hrule, fun hwrite => ?_⟩
      have hstrongest := exists_strongest hkind hrule
      rw [hwrite] at hstrongest
      rw [(canWrite_iff_strongest hkind hfull hrule).2 hstrongest] at hdenied
      cases hdenied
    · rintro ⟨hbelow, hne, a, hstrongest, hnot⟩
      refine ⟨⟨s, a⟩, ⟨hstrongest.rule, hnot, ?_⟩, rfl, hbelow, hne⟩
      rw [← Bool.not_eq_true, canWrite_iff_strongest hkind hfull hstrongest.rule]
      exact fun h => hnot (hstrongest.unique h).2

theorem resolveAccess_of_isPathWritable (hr : policy.Strongest env cwd r .write)
    (hwritable : (policy.writableRootAt env fs cwd r).isPathWritable p = true) :
    policy.resolveAccessWithCwd env p cwd = .write := by
  obtain ⟨hbelow, hcarved, -⟩ := WritableRoot.isPathWritable_iff.1 hwritable
  obtain ⟨q, hnearest⟩ := exists_nearest hkind hr.rule hbelow
  by_contra hnot
  refine hcarved q ((mem_readOnlySubpaths hlinks hkind hfull).2
    (.inr ⟨?_, ?_, _, hnearest.self, hnot⟩)) hnearest.above
  · exact hnearest.nearest r .write hr.rule hbelow
  · rintro rfl
    exact hnot (hnearest.self.unique hr).2

theorem Exposed.escapes (h : policy.Exposed env fs cwd r w n) :
    (policy.writableRootAt env fs cwd r).isPathWritable (w ++ [n]) = true ∧
      policy.canWritePathWithCwd env (w ++ [n]) cwd = false := by
  refine ⟨WritableRoot.isPathWritable_iff.2 ⟨h.below.trans (prefix_append _ _), ?_, ?_⟩,
    (canWrite_child_iff hkind hfull h.inner h.unlisted).2 h.denied⟩
  · intro s hs hsm
    rcases (mem_readOnlySubpaths hlinks hkind hfull).1 hs with
      ⟨hdefault, hnone⟩ | ⟨hrs, -, a, hstrongest, hnot⟩
    · obtain ⟨a, ha⟩ := h.undefaulted s hdefault hsm
      exact hnone a ha
    · rcases prefix_concat_iff.1 hsm with rfl | hsw
      · exact h.unlisted a hstrongest.rule
      · exact hnot (h.uncarved s a hstrongest hrs hsw)
  · intro c hc hstarts
    obtain ⟨hname, hdenied⟩ := (mem_protectedNames hlinks).1 hc
    have hchild : r ++ [c] <+: w := by
      rcases prefix_concat_iff.1 hstarts with heq | hstarts
      · exact absurd (append_inj' heq rfl).1 h.ne
      · exact hstarts
    by_cases hnone : ∀ a, ¬ policy.Rule env cwd (r ++ [c]) a
    · exact h.unprotected c hname hchild hnone
        ((canWrite_child_iff hkind hfull h.outer hnone).1 hdenied)
    · obtain ⟨a, ha⟩ := not_forall_not.1 hnone
      have hstrongest := exists_strongest hkind ha
      rw [h.uncarved _ _ hstrongest (prefix_append _ _) hchild] at hstrongest
      rw [(canWrite_iff_strongest hkind hfull ha).2 hstrongest] at hdenied
      cases hdenied

/-- What a root writes against the policy lies in a protected directory of a root within it. -/
theorem exposed_of_escapes (hr : policy.Strongest env cwd r .write)
    (hwritable : (policy.writableRootAt env fs cwd r).isPathWritable p = true)
    (hdenied : policy.canWritePathWithCwd env p cwd = false) :
    ∃ w n, policy.Exposed env fs cwd r w n := by
  obtain ⟨hbelow, hcarved, hnames⟩ := WritableRoot.isPathWritable_iff.1 hwritable
  have haccess := resolveAccess_of_isPathWritable hlinks hkind hfull hr hwritable
  rw [← Bool.not_eq_true, canWrite_iff hfull, haccess, eq_self, true_and, Bool.not_eq_false,
    isMetadataWriteDenied_iff hkind] at hdenied
  obtain ⟨m, n, hchild, hopen⟩ := hdenied
  obtain ⟨w, hw, rfl, hname, hmp⟩ := metadataChild_spec hchild
  have hmchild := metadataChild_between hchild (prefix_refl _) hmp
  -- nothing on the way to the path is carved out
  have hstrong (q : AbsolutePath) (a : FileSystemAccessMode) (hq : policy.Strongest env cwd q a)
      (hrq : r <+: q)
      (hqp : q <+: p) : a = .write := by
    by_contra hnot
    refine hcarved q ((mem_readOnlySubpaths hlinks hkind hfull).2 (.inr ⟨hrq, ?_, a, hq, hnot⟩)) hqp
    rintro rfl
    exact hnot (hq.unique hr).2
  have hwp : w <+: p := (prefix_append _ _).trans hmp
  have hrw : r <+: w :=
    (above_or_below_child hbelow hmp).resolve_right fun h => hopen r hr.rule h hbelow
  have hunlisted : ∀ a, ¬ policy.Rule env cwd (w ++ [n]) a := by
    intro a ha
    have hm := exists_strongest hkind ha
    rw [hstrong _ _ hm (hrw.trans (prefix_append _ _)) hmp] at hm
    exact hopen _ hm.rule (prefix_refl _) hmp
  have hinner : policy.Strongest env cwd w .write := by
    have h := exists_strongest hkind hw
    rwa [hstrong _ _ h hrw hwp] at h
  have hprotected (c : Text) (hc : c ∈ protectedMetadataPathNames) (hcp : r ++ [c] <+: p)
      (hnone : ∀ a, ¬ policy.Rule env cwd (r ++ [c]) a) :
      policy.metadataChildOfWritableRoot env (r ++ [c]) cwd ≠ some (r ++ [c], c) := fun hfirst =>
    hnames c ((mem_protectedNames hlinks).2 ⟨hc,
      (canWrite_child_iff hkind hfull hr hnone).2 hfirst⟩) hcp
  refine ⟨w, n, hr, hinner, hrw, ?_, hunlisted, hmchild,
    fun q a hq hrq hqw => hstrong q a hq hrq (hqw.trans hwp), fun s hs hsm => ?_,
    fun c hc hcw => hprotected c hc (hcw.trans hwp)⟩
  · rintro rfl
    exact hprotected n hname hmp hunlisted hmchild
  · by_contra hnone
    exact hcarved s ((mem_readOnlySubpaths hlinks hkind hfull).2 (.inl ⟨hs, not_exists.1 hnone⟩))
      (hsm.trans hmp)

end Roots

/-- No writable root writes what the policy denies, just when none exposes a protected name of a
root within it. -/
theorem writable_roots_within_policy (hlinks : fs.NoSymlinks) (hkind : policy.kind = .restricted) :
    (∀ root ∈ policy.getWritableRootsWithCwd env fs cwd, ∀ p, root.isPathWritable p = true →
      policy.canWritePathWithCwd env p cwd = true) ↔
    (policy.hasFullDiskWriteAccess = false → ∀ r w n, ¬ policy.Exposed env fs cwd r w n) := by
  cases hfull : policy.hasFullDiskWriteAccess with
  | true => simp [getWritableRootsWithCwd, hfull]
  | false =>
    simp only [mem_writableRoots hlinks hkind hfull, forall_const]
    constructor
    · intro h r w n hexposed
      obtain ⟨hwritable, hdenied⟩ := hexposed.escapes hlinks hkind hfull
      rw [h _ ⟨r, hexposed.outer, rfl⟩ _ hwritable] at hdenied
      cases hdenied
    · rintro h _ ⟨r, hr, rfl⟩ p hwritable
      by_contra hdenied
      obtain ⟨w, n, hexposed⟩ :=
        exposed_of_escapes hlinks hkind hfull hr hwritable (Bool.not_eq_true _ ▸ hdenied)
      exact h r w n hexposed

def emptyFileSystem : FileSystem := ⟨fun _ => none, fun _ => false, fun _ => none⟩

theorem noSymlinks_emptyFileSystem : emptyFileSystem.NoSymlinks :=
  ⟨fun _ => rfl, fun _ _ h => nomatch h⟩

/-- Neither of two roots side by side exposes anything of the other. -/
theorem writable_roots_within_policy_two :
    let policy : FileSystemSandboxPolicy :=
      .restricted [⟨.path ["a".toList], .write, none⟩, ⟨.path ["b".toList], .write, none⟩]
    ∀ root ∈ policy.getWritableRootsWithCwd bareEnv emptyFileSystem [], ∀ p,
      root.isPathWritable p = true → policy.canWritePathWithCwd bareEnv p [] = true := by
  intro policy
  refine (writable_roots_within_policy noSymlinks_emptyFileSystem rfl).2 fun _ r w n h => h.ne ?_
  have hpair (q : AbsolutePath) (hq : policy.Rule bareEnv [] q .write) :
      q = ["a".toList] ∨ q = ["b".toList] := by
    obtain ⟨e, he, hpath, -⟩ := rule_iff.1 hq
    rcases mem_pair.1 he with rfl | rfl
    · exact .inl (Option.some.inj hpath).symm
    · exact .inr (Option.some.inj hpath).symm
  have hbelow := h.below
  rcases hpair r h.outer.rule with rfl | rfl <;> rcases hpair w h.inner.rule with rfl | rfl <;>
    simp_all

/-- The root `/a` writes `/a/b/.git`, which the root `/a/b` protects. -/
theorem nested_metadata_writable :
    let policy : FileSystemSandboxPolicy :=
      .restricted [⟨.path ["a".toList], .write, none⟩,
        ⟨.path ["a".toList, "b".toList], .write, none⟩]
    let env := bareEnv
    let p := ["a".toList, "b".toList, ".git".toList]
    emptyFileSystem.NoSymlinks ∧
      (∃ root ∈ policy.getWritableRootsWithCwd env emptyFileSystem [],
        root.isPathWritable p = true) ∧
      policy.canWritePathWithCwd env p [] = false :=
  ⟨noSymlinks_emptyFileSystem, by decide +kernel⟩

end FileSystemSandboxPolicy

end OmniDoer.Permissions
