import OmniDoer.Verification.Permissions.Additional
import OmniDoer.Verification.Permissions.FullDisk
import OmniDoer.Verification.Permissions.WritableRoots

/-! # Changes of a policy

Entries that are put behind those of a policy: roots that it does not open yet, and what another
policy denies. -/

namespace OmniDoer.Permissions.FileSystemSandboxPolicy

open Rust Unix Rules List

variable {P Q new existing : FileSystemSandboxPolicy} {env : Env} {p q r d cwd : AbsolutePath}
  {a b : FileSystemAccessMode}

/-- One more entry as additional permissions. -/
def adding (r : AbsolutePath) (a : FileSystemAccessMode) : AdditionalPermissionProfile :=
  { fileSystem := some { entries := [⟨.path r, a, none⟩] } }

theorem adding_rule : (adding r a).policy.Rule env cwd q b ↔ q = r ∧ b = a := by
  simp [rule_iff, AdditionalPermissionProfile.policy, AdditionalPermissionProfile.entries,
    adding, restricted, resolveEntryPath, resolveFileSystemPath, eq_comm]

theorem push_eq (P : FileSystemSandboxPolicy) (r : AbsolutePath) (a : FileSystemAccessMode) :
    P.push r a = P.joined (adding r a) := rfl

theorem push_rule : (P.push r a).Rule env cwd q b ↔ P.Rule env cwd q b ∨ q = r ∧ b = a := by
  rw [push_eq, joined_rule_iff, adding_rule]

/-- Everything that was permitted stays so, and nothing more is denied. -/
structure Widens (P Q : FileSystemSandboxPolicy) (env : Env) (cwd : AbsolutePath) : Prop where
  reads : ∀ p, P.canReadPathWithCwd env p cwd = true → Q.canReadPathWithCwd env p cwd = true
  writes : ∀ p, P.canWritePathWithCwd env p cwd = true → Q.canWritePathWithCwd env p cwd = true
  denials : ∀ q, Q.Rule env cwd q .deny → P.Rule env cwd q .deny

section Restricted

variable (hkind : P.kind = .restricted)
include hkind

theorem canRead_of_fullWrite (hfull : P.hasFullDiskWriteAccess = true) :
    P.canReadPathWithCwd env p cwd = true := by
  obtain ⟨q, hnearest⟩ :=
    exists_nearest hkind (rootWritable_of_full env cwd hkind hfull) (List.nil_prefix (l := p))
  obtain ⟨e, he, hpath, haccess⟩ := rule_iff.1 hnearest.rule
  exact decide_eq_true (haccess ▸ (writable_of_full hkind hfull he hpath).1)

theorem widens_push (ha : a ≠ .deny) (h : ∀ p, P.canWritePathWithCwd env p cwd = true →
      ¬ P.NarrowedAt (adding r a) env cwd p ∧ ¬ P.ProtectedAt (adding r a) env cwd p) :
    P.Widens (P.push r a) env cwd := by
  have hadding : ∀ e ∈ (adding r a).entries, e.access ≠ .deny := forall_mem_singleton.2 ha
  rw [push_eq]
  refine ⟨fun p hp => ?_, fun p hp => ?_, fun q hq => ?_⟩
  · exact decide_eq_true (joined_resolveAccess_ne_deny hkind hadding (of_decide_eq_true hp))
  · obtain ⟨hnarrowed, hprotected⟩ := h p hp
    rw [canWrite_eq_true_iff, joined_denied_iff hkind,
      joined_resolveAccess_write_iff hkind hadding (canWrite_eq_true_iff.1 hp).1]
    exact ⟨hnarrowed, hprotected⟩
  · exact (joined_rule_iff.1 hq).resolve_right (additional_rule_ne_deny hadding)

/-- The entry that is pushed decides about its root, unless another one denies it. -/
theorem resolve_push (hr : ¬ P.Rule env cwd r .deny) (ha : a ≠ .deny) :
    (P.push r a).resolveAccessWithCwd env r cwd ≠ .deny ∧
      a ≤ (P.push r a).resolveAccessWithCwd env r cwd := by
  have hrule : (P.push r a).Rule env cwd r a := push_rule.2 (.inr ⟨rfl, rfl⟩)
  have hnearest := exists_strongest (show (P.push r a).kind = _ from hkind) hrule
  refine ⟨fun hdeny => ?_, hnearest.greatest a hrule⟩
  rw [hdeny] at hnearest
  rcases push_rule.1 hnearest.rule with h | ⟨-, h⟩
  · exact hr h
  · exact ha h.symm

theorem pushRead_widens (hr : P.canReadPathWithCwd env r cwd = false) :
    P.Widens (P.push r .read) env cwd := by
  refine widens_push hkind nofun fun p hp => ?_
  obtain ⟨hwrite, hguards⟩ := canWrite_eq_true_iff.1 hp
  constructor
  · rintro ⟨q, hq, hqp, hall⟩
    obtain ⟨rfl, -⟩ := adding_rule.1 hq
    -- the entry that writes the path would open the root
    obtain ⟨b, hb⟩ := exists_nearest_write hkind hwrite
    have hbq := (hall b (.inl hb.rule) hb.above).1
    rw [canReadPathWithCwd, resolveAccess_eq hkind (hb.between hbq hqp)] at hr
    cases hr
  · rintro ⟨-, m, n, hchild, hnone⟩
    refine hguards ⟨?_,
      (isMetadataWriteDenied_iff hkind).2 ⟨m, n, ?_, fun w hw => hnone w (.inl hw)⟩⟩
    · by_contra hfull
      rw [canRead_of_fullWrite hkind (by simpa using hfull)] at hr
      cases hr
    · have hpaths : (adding r .read).policy.writePaths env cwd = [] := rfl
      rwa [hpaths, append_nil, ← metadataChildOfWritableRoot_eq] at hchild

theorem pushWrite_widens (hr : P.canWritePathWithCwd env r cwd = false) :
    P.Widens (P.push r .write) env cwd := by
  refine widens_push hkind nofun fun p hp => ?_
  obtain ⟨hwrite, hguards⟩ := canWrite_eq_true_iff.1 hp
  constructor
  · rintro ⟨q, hq, -⟩
    cases (adding_rule.1 hq).2
  · rintro ⟨hfull, m, n, hchild, hnone⟩
    have hfullP : P.hasFullDiskWriteAccess = false := by
      by_contra h
      have hothers : ∀ e ∈ (P.push r .write).entries, e.access ≠ .write → e ∈ P.entries := by
        intro e he hne
        rcases mem_append.1 he with he | he
        · exact he
        · cases mem_singleton.1 he
          exact absurd rfl hne
      have hpushed :=
        full_mono (P := P) (Q := P.push r .write) rfl (fun e he _ => mem_append_left _ he) hothers
      rw [← push_eq, hpushed (by simpa using h)] at hfull
      cases hfull
    -- the policy itself has no protected directory there that is not opened
    have hclosed (hchildP : P.metadataChildOfWritableRoot env p cwd = some (m, n)) : False :=
      hguards ⟨hfullP,
        (isMetadataWriteDenied_iff hkind).2 ⟨m, n, hchildP, fun w hw => hnone w (.inl hw)⟩⟩
    rw [findSome?_append, ← metadataChildOfWritableRoot_eq] at hchild
    cases hchildP : P.metadataChildOfWritableRoot env p cwd with
    | some child =>
      rw [hchildP] at hchild
      cases hchild
      exact hclosed hchildP
    | none =>
      rw [hchildP, Option.none_or] at hchild
      obtain ⟨w, hw, hprotected⟩ := exists_of_findSome?_eq_some hchild
      obtain ⟨hname, rfl, habove⟩ := protectedChild_eq_some.1 hprotected
      obtain ⟨rfl, -⟩ := adding_rule.1 (mem_writePaths.1 hw)
      obtain ⟨b, hb⟩ := exists_nearest_write hkind hwrite
      have hwp := (prefix_append w [n]).trans habove
      rcases above_or_below_child hb.above habove with h | h
      · -- the root is denied as a protected directory, and so is the path
        have hdenied : P.isMetadataWriteDenied env w cwd = true := by
          by_contra hopen
          rw [canWrite_iff hfullP |>.2 ⟨resolveAccess_eq hkind (hb.between h hwp),
            by simpa using hopen⟩] at hr
          cases hr
        obtain ⟨m', n', hchild', -⟩ := (isMetadataWriteDenied_iff hkind).1 hdenied
        obtain ⟨w', hw', rfl, hname', habove'⟩ := metadataChild_spec hchild'
        obtain ⟨_, _, hsome⟩ := exists_metadataChild hw' hname' (habove'.trans hwp)
        rw [hchildP] at hsome
        cases hsome
      · exact hnone b (.inl hb.rule) h hb.above

end Restricted

theorem restricted_of_not_canRead (h : P.canReadPathWithCwd env r cwd = false) :
    P.kind = .restricted := by
  by_contra hkind
  rw [canReadPathWithCwd, resolveAccess_of_ne_restricted hkind] at h
  cases h

theorem restricted_of_not_canWrite (h : P.canWritePathWithCwd env r cwd = false) :
    P.kind = .restricted := by
  by_contra hkind
  rw [canWritePathWithCwd, resolveAccess_of_ne_restricted hkind, isMetadataWriteDenied,
    if_pos hkind] at h
  simp [FileSystemAccessMode.canWrite] at h

/-- Roots that are pushed unless the policy opens them widen it, and are opened unless denied. -/
theorem foldl_push_widens {can : FileSystemSandboxPolicy → AbsolutePath → Bool}
    (hkeep : ∀ P Q r, P.Widens Q env cwd → can P r = true → can Q r = true)
    (hpush : ∀ P r, can P r = false →
      P.Widens (P.push r a) env cwd ∧ (¬ P.Rule env cwd r .deny → can (P.push r a) r = true))
    (roots : List AbsolutePath) (P : FileSystemSandboxPolicy) :
    let result := roots.foldl (fun P r => if can P r then P else P.push r a) P
    P.Widens result env cwd ∧ ∀ r ∈ roots, ¬ P.Rule env cwd r .deny → can result r = true := by
  induction roots generalizing P with
  | nil => exact ⟨⟨fun _ h => h, fun _ h => h, fun _ h => h⟩, nofun⟩
  | cons r roots ih =>
    intro result
    have hstep : P.Widens (if can P r then P else P.push r a) env cwd ∧
        (¬ P.Rule env cwd r .deny → can (if can P r then P else P.push r a) r = true) := by
      cases hcan : can P r with
      | true => exact ⟨⟨fun _ h => h, fun _ h => h, fun _ h => h⟩, fun _ => hcan⟩
      | false => exact hpush P r hcan
    obtain ⟨hwidens, hroots⟩ := ih (if can P r then P else P.push r a)
    refine ⟨⟨fun p h => hwidens.reads p (hstep.1.reads p h),
      fun p h => hwidens.writes p (hstep.1.writes p h),
      fun q h => hstep.1.denials q (hwidens.denials q h)⟩, ?_⟩
    rintro s hs hdeny
    rcases mem_cons.1 hs with rfl | hs
    · exact hkeep _ _ _ hwidens (hstep.2 hdeny)
    · exact hroots s hs fun h => hdeny (hstep.1.denials s h)

/-- More roots widen what a policy permits, and each of them is opened unless it is denied. -/
theorem additional_roots_widen (policy : FileSystemSandboxPolicy) (env : Env) (cwd : AbsolutePath)
    (roots : List AbsolutePath) :
    (let readable := policy.withAdditionalReadableRoots env cwd roots;
      policy.Widens readable env cwd ∧
        ∀ r ∈ roots, ¬ policy.Rule env cwd r .deny → readable.canReadPathWithCwd env r cwd = true) ∧
    (let writable := policy.withAdditionalWritableRoots env cwd roots;
      policy.Widens writable env cwd ∧
        ∀ r ∈ roots, ¬ policy.Rule env cwd r .deny →
          writable.canWritePathWithCwd env r cwd = true) := by
  constructor
  · rw [withAdditionalReadableRoots]
    split
    · rename_i hfull
      exact ⟨⟨fun _ h => h, fun _ h => h, fun _ h => h⟩, fun r _ _ => canRead_of_full hfull r⟩
    · refine foldl_push_widens (fun P Q r h => h.reads r) (fun P r hr => ?_) roots policy
      have hkind := restricted_of_not_canRead hr
      exact ⟨pushRead_widens hkind hr,
        fun h => decide_eq_true (resolve_push (a := .read) hkind h nofun).1⟩
  · refine foldl_push_widens (fun P Q r h => h.writes r) (fun P r hr => ?_) roots policy
    have hkind := restricted_of_not_canWrite hr
    refine ⟨pushWrite_widens hkind hr, fun h => canWrite_eq_true_iff.2 ⟨?_, ?_⟩⟩
    · obtain ⟨hne, hle⟩ := resolve_push (a := .write) hkind h nofun
      cases haccess : (P.push r .write).resolveAccessWithCwd env r cwd with
      | write => rfl
      | read => exact absurd (haccess ▸ hle) (by decide)
      | deny => exact absurd haccess hne
    · rintro ⟨-, hdenied⟩
      rw [not_denied_of_rule (show (P.push r .write).kind = _ from hkind)
        (push_rule.2 (.inr ⟨rfl, rfl⟩))] at hdenied
      cases hdenied

/-- What a policy denies, as additional permissions. -/
def denials (existing : FileSystemSandboxPolicy) : AdditionalPermissionProfile :=
  { fileSystem := some { entries := existing.entries.filter (·.access = .deny) } }

theorem denials_rule : existing.denials.policy.Rule env cwd q a ↔
    a = .deny ∧ existing.Rule env cwd q .deny := by
  rw [rule_iff, rule_iff]
  change (∃ e ∈ existing.entries.filter (·.access = .deny), _) ↔ _
  simp only [mem_filter, decide_eq_true_eq]
  constructor
  · rintro ⟨e, ⟨he, hdeny⟩, hpath, rfl⟩
    exact ⟨hdeny, e, he, hpath, hdeny⟩
  · rintro ⟨rfl, e, he, hpath, hdeny⟩
    exact ⟨e, ⟨he, hdeny⟩, hpath, hdeny⟩

/-- The policy that the denials are put behind. -/
def preserving (new existing : FileSystemSandboxPolicy) : FileSystemSandboxPolicy :=
  if new.kind = .unrestricted ∧ existing.entries.filter (·.access = .deny) ≠ [] then
    restricted [⟨.special .root, .write, none⟩]
  else new

theorem alike_preserve (hkind : (preserving new existing).kind = .restricted) :
    (new.preserveDenyReadRestrictionsFrom existing).Alike
      ((preserving new existing).joined existing.denials) := by
  rw [preserveDenyReadRestrictionsFrom, ← preserving, if_neg (not_not.2 hkind)]
  exact ⟨rfl, fun f => findSome?_foldl_pushUnique f _ _⟩

section Preserve

variable (hkind : P.kind = .restricted)
include hkind

theorem joined_denied (hnearest : Nearest (existing.Rule env cwd) p d .deny)
    (hbelow : ∀ q a, P.Rule env cwd q a → q <+: p → q <+: d) :
    (P.joined existing.denials).resolveAccessWithCwd env p cwd = .deny := by
  refine resolveAccess_eq hkind ⟨hnearest.above,
    joined_rule_iff.2 (.inr (denials_rule.2 ⟨rfl, hnearest.rule⟩)),
    fun c _ => by cases c <;> decide, fun y c hy hyp => ?_⟩
  rcases joined_rule_iff.1 hy with hy | hy
  · exact hbelow y c hy hyp
  · exact hnearest.nearest y .deny (denials_rule.1 hy).2 hyp

variable (hopen : ∀ q, existing.Rule env cwd q .deny → ¬ q <+: p)
include hopen

theorem joined_denials_resolveAccess :
    (P.joined existing.denials).resolveAccessWithCwd env p cwd =
      P.resolveAccessWithCwd env p cwd := by
  have hrule {y : AbsolutePath} {c : FileSystemAccessMode} (hy : y <+: p)
      (h : (P.joined existing.denials).Rule env cwd y c) : P.Rule env cwd y c :=
    (joined_rule_iff.1 h).resolve_right fun h => hopen y (denials_rule.1 h).2 hy
  rcases resolveAccess_cases hkind p with ⟨q, hq⟩ | ⟨hnone, hdeny⟩
  · exact resolveAccess_eq hkind
      (hq.anti (fun y c hy => hrule hy) (joined_rule_iff.2 (.inl hq.rule)))
  · rw [hdeny]
    rcases resolveAccess_cases (show (P.joined existing.denials).kind = _ from hkind) p with
      ⟨q, hq⟩ | ⟨-, h⟩
    · exact absurd hq.above (hnone q _ (hrule hq.above hq.rule))
    · exact h

theorem joined_denials_canWrite :
    (P.joined existing.denials).canWritePathWithCwd env p cwd = true ↔
      P.canWritePathWithCwd env p cwd = true ∧
      (P.hasFullDiskWriteAccess = true → (P.joined existing.denials).hasFullDiskWriteAccess = true ∨
        (P.joined existing.denials).isMetadataWriteDenied env p cwd = false) := by
  have hfull : (P.joined existing.denials).hasFullDiskWriteAccess = true →
      P.hasFullDiskWriteAccess = true := by
    refine full_mono rfl (fun e he hwrite => ?_) fun e he _ => mem_append_left _ he
    refine (mem_append.1 he).resolve_right fun he => ?_
    rw [of_decide_eq_true (mem_filter.1 he).2] at hwrite
    cases hwrite
  have hchild : (P.joined existing.denials).metadataChildOfWritableRoot env p cwd =
      P.metadataChildOfWritableRoot env p cwd := by
    have hnone : existing.denials.entries.findSome? (entryChild env cwd p) = none :=
      findSome?_eq_none_iff.2 fun e he => entryChild_of_deny (of_decide_eq_true (mem_filter.1 he).2)
    rw [metadataChild_eq_findSome?, metadataChild_eq_findSome?, joined, findSome?_append, hnone,
      Option.or_none]
  have hdenied : (P.joined existing.denials).isMetadataWriteDenied env p cwd =
      P.isMetadataWriteDenied env p cwd := by
    rw [Bool.eq_iff_iff, isMetadataWriteDenied_iff hkind,
      isMetadataWriteDenied_iff (show (P.joined existing.denials).kind = _ from hkind), hchild]
    simp [joined_rule_iff, denials_rule]
  rw [canWrite_eq_true_iff, canWrite_eq_true_iff, joined_denials_resolveAccess hkind hopen, hdenied]
  revert hfull
  cases (P.joined existing.denials).hasFullDiskWriteAccess <;>
    cases P.hasFullDiskWriteAccess <;> simp

end Preserve

/-- Without the entries of an unrestricted policy the root alone gives the same access. -/
theorem preserving_same (new existing : FileSystemSandboxPolicy) (env : Env)
    (cwd p : AbsolutePath) :
    (preserving new existing).canReadPathWithCwd env p cwd = new.canReadPathWithCwd env p cwd ∧
      (preserving new existing).canWritePathWithCwd env p cwd = new.canWritePathWithCwd env p cwd ∧
      (preserving new existing).hasFullDiskWriteAccess = new.hasFullDiskWriteAccess := by
  rw [preserving]
  split
  · rename_i h
    have haccess : new.resolveAccessWithCwd env p cwd = .write :=
      resolveAccess_of_ne_restricted (h.1 ▸ nofun) p
    rw [canReadPathWithCwd, canReadPathWithCwd, canWritePathWithCwd, canWritePathWithCwd, haccess,
      hasFullDiskWriteAccess, hasFullDiskWriteAccess, h.1]
    exact ⟨rfl, rfl, rfl⟩
  · exact ⟨rfl, rfl, rfl⟩

/-- A policy that is not left to another sandbox denies what the other policy denied, unless it has
an entry further down. Elsewhere it reads what it did, and writes what it did, unless it had access
to the whole disk before and protects the path now. -/
theorem preserve_keeps_denials (new existing : FileSystemSandboxPolicy) (env : Env)
    (cwd p : AbsolutePath) :
    let result := new.preserveDenyReadRestrictionsFrom existing
    (∀ d, new.kind ≠ .externalSandbox → Nearest (existing.Rule env cwd) p d .deny →
      (∀ q a, new.Rule env cwd q a → q <+: p → ¬ (d <+: q ∧ d ≠ q)) →
        result.canReadPathWithCwd env p cwd = false) ∧
    ((∀ q, existing.Rule env cwd q .deny → ¬ q <+: p) →
      result.canReadPathWithCwd env p cwd = new.canReadPathWithCwd env p cwd ∧
      (result.canWritePathWithCwd env p cwd = true ↔ new.canWritePathWithCwd env p cwd = true ∧
        (new.hasFullDiskWriteAccess = true → result.hasFullDiskWriteAccess = true ∨
          result.isMetadataWriteDenied env p cwd = false))) := by
  intro result
  obtain ⟨hread, hwrite, hfull⟩ := preserving_same new existing env cwd p
  constructor
  · intro d hexternal hnearest hbelow
    obtain ⟨e, he, -, hdeny⟩ := rule_iff.1 hnearest.rule
    have hdenials : existing.entries.filter (·.access = .deny) ≠ [] :=
      ne_nil_of_mem (mem_filter.2 ⟨he, decide_eq_true hdeny⟩)
    have hkind : (preserving new existing).kind = .restricted := by
      rw [preserving]
      cases h : new.kind with
      | restricted => simp [h]
      | unrestricted => simp [hdenials, restricted]
      | externalSandbox => exact absurd h hexternal
    rw [(alike_preserve hkind).same.canRead_eq, canReadPathWithCwd, joined_denied hkind hnearest]
    · rfl
    · intro q a hq hqp
      rcases List.prefix_or_prefix_of_prefix hqp hnearest.above with h | h
      · exact h
      · rw [preserving] at hq
        split at hq
        · obtain ⟨e, he, hpath, -⟩ := rule_iff.1 hq
          cases mem_singleton.1 he
          cases hpath
          exact List.nil_prefix
        · by_contra hnot
          refine hbelow q a hq hqp ⟨h, ?_⟩
          rintro rfl
          exact hnot (prefix_refl _)
  · intro hopen
    by_cases hkind : (preserving new existing).kind = .restricted
    · have halike := alike_preserve hkind
      rw [halike.same.canRead_eq, halike.canWrite_eq, halike.same.hasFullDiskWriteAccess_eq,
        halike.denied_eq, joined_denials_canWrite hkind hopen, canReadPathWithCwd,
        joined_denials_resolveAccess hkind hopen, ← canReadPathWithCwd, hread, hwrite, hfull]
      exact ⟨rfl, Iff.rfl⟩
    · have hsame : result = preserving new existing := by
        change new.preserveDenyReadRestrictionsFrom existing = _
        rw [preserveDenyReadRestrictionsFrom, ← preserving, if_pos hkind]
      rw [hsame, hread, hwrite, hfull]
      exact ⟨rfl, fun h => ⟨h, .inl⟩, And.left⟩

/-- A policy that is left to another sandbox keeps no denial, and one that was unrestricted protects
names it did not protect. -/
theorem preserved_write_lost :
    let existing := restricted [⟨.path ["a".toList], .deny, none⟩]
    let env := bareEnv
    let p := [".git".toList, "config".toList]
    (externalSandbox.preserveDenyReadRestrictionsFrom existing).canReadPathWithCwd env
      ["a".toList] [] = true ∧
      unrestricted.canWritePathWithCwd env p [] = true ∧
      (unrestricted.preserveDenyReadRestrictionsFrom existing).canWritePathWithCwd env p
        [] = false := by
  decide +kernel

end OmniDoer.Permissions.FileSystemSandboxPolicy
