import OmniDoer.Verification.Permissions.Grants
import OmniDoer.Verification.Permissions.FullDisk

/-! # Using a grant again

A call asks for permissions and gets them together with those granted before. It needs no new
approval when the grants alone give what the whole, compared with itself, gives. An entry below a
denial is not accepted on either side, so the comparison does not see it. -/

namespace OmniDoer.Permissions

open Rust Unix Rules List

section Merge

variable {env : Env} {cwd q : AbsolutePath} {a : FileSystemAccessMode}

def combined (additional : Option AdditionalPermissionProfile)
    (granted : AdditionalPermissionProfile) : AdditionalPermissionProfile :=
  { fileSystem := some { entries := (additional.getD {}).entries ++ granted.entries } }

theorem findSome?_mergeFileSystem {β : Type} (f : FileSystemSandboxEntry → Option β)
    (base permissions : Option FileSystemPermissions) :
    (((mergeFileSystemPermissions base permissions).map (·.entries)).getD []).findSome? f =
      ((base.map (·.entries)).getD [] ++ (permissions.map (·.entries)).getD []).findSome? f := by
  cases base with
  | none => cases permissions <;> simp [mergeFileSystemPermissions]
  | some base =>
    cases permissions with
    | none => simp [mergeFileSystemPermissions]
    | some permissions =>
      have hfound := findSome?_foldl_pushUnique f (base.entries ++ permissions.entries) []
      rw [← mergePermissionEntries] at hfound
      simp only [mergeFileSystemPermissions, Option.filter_some, FileSystemPermissions.isEmpty]
      cases hmerged : mergePermissionEntries base.entries permissions.entries with
      | nil | cons =>
        rw [hmerged] at hfound
        simpa using hfound

theorem alike_merge {additional : Option AdditionalPermissionProfile}
    {granted effective : AdditionalPermissionProfile}
    (h : mergePermissionProfiles additional (some granted) = some effective) :
    effective.policy.Alike (combined additional granted).policy := by
  refine ⟨rfl, fun f => ?_⟩
  change effective.entries.findSome? f = (combined additional granted).entries.findSome? f
  cases additional with
  | none =>
    rw [mergePermissionProfiles, Option.filter_eq_some_iff] at h
    cases h.1
    rfl
  | some additional =>
    rw [mergePermissionProfiles, Option.filter_eq_some_iff] at h
    cases h.1
    exact findSome?_mergeFileSystem f additional.fileSystem granted.fileSystem

end Merge

namespace FileSystemSandboxPolicy

variable {P Q : FileSystemSandboxPolicy} {env : Env} {p q x cwd : AbsolutePath}
  {a : FileSystemAccessMode}

theorem resolveAccess_congr (hkind : P.kind = .restricted)
    (h : ∀ y c, P.Rule env cwd y c → (y <+: p ↔ y <+: q)) :
    P.resolveAccessWithCwd env p cwd = P.resolveAccessWithCwd env q cwd := by
  rcases resolveAccess_cases hkind p with ⟨r, hr⟩ | ⟨hnone, hdeny⟩
  · refine (resolveAccess_eq hkind ⟨(h r _ hr.rule).1 hr.above, hr.rule, hr.greatest,
      fun y c hy hyq => ?_⟩).symm
    exact hr.nearest y c hy ((h y c hy).2 hyq)
  · rw [hdeny]
    rcases resolveAccess_cases hkind q with ⟨r, hr⟩ | ⟨-, hdeny⟩
    · exact absurd ((h r _ hr.rule).2 hr.above) (hnone r _ hr.rule)
    · exact hdeny.symm

end FileSystemSandboxPolicy

open FileSystemSandboxPolicy

theorem findSome?_filter_of_eq_some {α β : Type} {f : α → Option β} {l : List α} {v : β}
    {keep : α → Bool} (h : l.findSome? f = some v) (hkeep : ∀ e ∈ l, f e = some v → keep e = true) :
    (l.filter keep).findSome? f = some v := by
  induction l with
  | nil => cases h
  | cons e l ih =>
    rw [findSome?_cons] at h
    cases he : f e with
    | some v' =>
      rw [he] at h
      cases h
      rw [filter_cons_of_pos (hkeep e mem_cons_self he), findSome?_cons, he]
    | none =>
      rw [he] at h
      have hrest := ih h fun e he => hkeep e (mem_cons_of_mem _ he)
      rw [filter_cons]
      split
      · rw [findSome?_cons, he]
        exact hrest
      · exact hrest

section Accepted

variable {env : Env} {fs : FileSystem} {requested granted : AdditionalPermissionProfile}
  {cwd : AbsolutePath}

/-- What is found first among the kept entries, if denials give nothing, is found first among the
accepted entries of the grant. -/
theorem findSome?_intersect {β : Type} (f : FileSystemSandboxEntry → Option β)
    (hdeny : ∀ e, e.access = .deny → f e = none)
    (hmaterialize : ∀ e, f (materializeCwdDependentEntry env e cwd) = f e) :
    (intersectPermissionProfiles env fs requested granted cwd).entries.findSome? f =
      (granted.entries.filter
        (grantedFileSystemEntryWithinRequest env fs
          (requested.fileSystem.getD {}) · cwd)).findSome? f := by
  have haccepted : (acceptedOf env fs requested granted cwd).findSome? f =
      (granted.entries.filter
        (grantedFileSystemEntryWithinRequest env fs
          (requested.fileSystem.getD {}) · cwd)).findSome? f := by
    rw [acceptedOf, acceptedEntries, findSome?_foldl_pushUnique, nil_append, findSome?_map,
      entries_getD]
    congr 1
    funext e
    exact hmaterialize e
  have hretained (source accepted : List FileSystemSandboxEntry) :
      (constrainingDenyEntries env source accepted cwd).findSome? f = none := by
    rw [findSome?_eq_none_iff]
    intro e he
    simp only [constrainingDenyEntries, mem_map, mem_filter, decide_eq_true_eq] at he
    obtain ⟨d, ⟨⟨-, hd⟩, -⟩, rfl⟩ := he
    rw [hmaterialize]
    exact hdeny d hd
  rw [← haccepted]
  cases hrequested : requested.fileSystem with
  | none =>
    rw [acceptedOf_eq_nil hrequested]
    simp [AdditionalPermissionProfile.entries, intersectPermissionProfiles, hrequested]
  | some fileSystem =>
    rw [intersect_entries_of_some hrequested, intersectFileSystem]
    simp [findSome?_foldl_pushUnique, hretained, acceptedOf, hrequested]

theorem findSome?_entryChild_intersect (p : AbsolutePath) :
    (intersectPermissionProfiles env fs requested granted cwd).entries.findSome?
      (entryChild env cwd p) =
      (granted.entries.filter
        (grantedFileSystemEntryWithinRequest env fs (requested.fileSystem.getD {}) · cwd)).findSome?
          (entryChild env cwd p) :=
  findSome?_intersect (entryChild env cwd p) (fun _ h => entryChild_of_deny h) fun e => by
    rw [entryChild, entryChild, (materialize_eq ..).2, (materialize_eq ..).1]

end Accepted

/-- What the first profile gives at a path, the second gives. -/
def Contained (env : Env) (cwd : AbsolutePath) (E G : AdditionalPermissionProfile)
    (p : AbsolutePath) : Prop :=
  (E.policy.canReadPathWithCwd env p cwd = true → G.policy.canReadPathWithCwd env p cwd = true) ∧
    (E.policy.canWritePathWithCwd env p cwd = true → G.policy.canWritePathWithCwd env p cwd = true)

/-- A place that the comparison does not see: below a denial, or where only the whole has access to
the full disk. -/
def Unseen (env : Env) (cwd : AbsolutePath) (E G : AdditionalPermissionProfile)
    (q : AbsolutePath) : Prop :=
  (∃ d, E.Rule env cwd d .deny ∧ d <+: q ∧ d ≠ q) ∨
    E.policy.hasFullDiskWriteAccess = true ∧ G.policy.hasFullDiskWriteAccess = false

section Preapproved

variable {env : Env} {fs : FileSystem} {E G : AdditionalPermissionProfile}
  {cwd p q m : AbsolutePath}
  {a : FileSystemAccessMode} {n : Text}

def Undenied (env : Env) (cwd : AbsolutePath) (E : AdditionalPermissionProfile)
    (q : AbsolutePath) : Prop :=
  ∀ d, E.Rule env cwd d .deny → ¬ d <+: q

theorem undenied_of_seen (hnearest : Nearest (E.Rule env cwd) p q a) (ha : a ≠ .deny)
    (hseen : ¬ Unseen env cwd E G q) :
    Undenied env cwd E q := by
  intro d hd hdq
  by_cases heq : d = q
  · subst heq
    exact ha (FileSystemAccessMode.deny_le_iff.1 (hnearest.greatest _ hd))
  · exact hseen (.inl ⟨d, hd, hdq, heq⟩)

theorem canWrite_of_nearest (hnearest : Nearest (E.Rule env cwd) p q .write) :
    E.policy.canWritePathWithCwd env q cwd = true := by
  rw [canWrite_eq_true_iff, resolveAccess_eq E.policy_kind hnearest.self,
    not_denied_of_rule E.policy_kind hnearest.rule]
  simp

/-- A whole that writes a path, and gives no write access from a protected directory on, writes the
directory itself. -/
theorem canWrite_child (hwrite : E.policy.canWritePathWithCwd env p cwd = true) (hmp : m <+: p)
    (hnearest : Nearest (E.Rule env cwd) p q .write) (hqm : q <+: m)
    (hnone : ∀ w, E.Rule env cwd w .write → m <+: w → ¬ w <+: p) :
    E.policy.canWritePathWithCwd env m cwd = true := by
  obtain ⟨-, hguards⟩ := canWrite_eq_true_iff.1 hwrite
  rw [canWrite_eq_true_iff, resolveAccess_eq E.policy_kind (hnearest.between hqm hmp)]
  refine ⟨rfl, fun hdenied => hguards ⟨hdenied.1, ?_⟩⟩
  obtain ⟨m', n', hchild, hopen⟩ := (isMetadataWriteDenied_iff E.policy_kind).1 hdenied.2
  -- the first protected directory on the way to the path is the one on the way to `m`
  obtain ⟨v, hv, hm', hname, hvm⟩ := metadataChild_spec hchild
  obtain ⟨first, name, hfirst⟩ := exists_metadataChild hv hname (hm' ▸ hvm.trans hmp)
  obtain ⟨w, hw, rfl, -, hfirstp⟩ := metadataChild_spec hfirst
  have hfirstm : w ++ [name] <+: m :=
    (above_or_below_child hmp hfirstp).resolve_left fun h =>
      hnone w hw h ((prefix_append _ _).trans hfirstp)
  rw [metadataChild_between hfirst hfirstm hmp] at hchild
  cases hchild
  refine (isMetadataWriteDenied_iff E.policy_kind).2 ⟨_, _, hfirst, fun v hv hfirstv hvp => ?_⟩
  rcases List.prefix_or_prefix_of_prefix hvp hmp with h | h
  · exact hopen v hv hfirstv h
  · exact hnone v hv h hvp

section Access

variable (hsub : ∀ q a, G.Rule env cwd q a → E.Rule env cwd q a)
include hsub

theorem granted_resolveAccess_eq (hnearest : Nearest (E.Rule env cwd) p q a) :
    G.policy.resolveAccessWithCwd env p cwd = G.policy.resolveAccessWithCwd env q cwd :=
  resolveAccess_congr G.policy_kind fun y c hy =>
    ⟨hnearest.nearest y c (hsub y c hy), fun hyq => hyq.trans hnearest.above⟩

theorem granted_le (hnearest : Nearest (E.Rule env cwd) p q a) {b : FileSystemAccessMode}
    (hb : G.Rule env cwd q b) :
    G.policy.resolveAccessWithCwd env p cwd ≤ a ∧ b ≤ G.policy.resolveAccessWithCwd env p cwd := by
  rw [granted_resolveAccess_eq hsub hnearest]
  have hstrongest := exists_strongest G.policy_kind hb
  exact ⟨hnearest.greatest _ (hsub _ _ hstrongest.rule), hstrongest.greatest b hb⟩

end Access

section Main

variable (hlinks : fs.NoSymlinks) (hexact : E.Exact)
include hlinks hexact

theorem within_of_undenied (hopen : Undenied env cwd E q) (hrule : E.Rule env cwd q a)
    {e : FileSystemSandboxEntry}
    (hpath : resolveEntryPath env e.path cwd = some q) (haccess : e.access = a) :
    grantedFileSystemEntryWithinRequest env fs (E.fileSystem.getD {}) e cwd = true := by
  have hne : a ≠ .deny := by
    rintro rfl
    exact hopen q hrule (prefix_refl q)
  have hstrongest := exists_strongest E.policy_kind hrule
  rw [within_iff hpath, entries_getD, haccess]
  refine ⟨hne, ?_, ?_⟩
  · rw [Bool.eq_false_iff]
    intro hdenied
    obtain ⟨d, -, hd, hdq⟩ := (isReadDenied_iff E.policy_kind hlinks hexact).1 hdenied
    exact hopen d hd hdq
  · change accessCovers (E.policy.resolveAccessWithCwd env q cwd) a = true
    have hle := hstrongest.greatest a hrule
    have hread : E.policy.resolveAccessWithCwd env q cwd ≠ .deny := by
      intro hdeny
      rw [hdeny] at hstrongest
      exact hopen q hstrongest.rule (prefix_refl q)
    revert hle hread
    cases a <;> cases E.policy.resolveAccessWithCwd env q cwd <;>
      first | exact absurd rfl hne | decide

variable (hsame : (intersectPermissionProfiles env fs E G cwd).entries =
  (intersectPermissionProfiles env fs E E cwd).entries)
include hsame

theorem granted_of_undenied (hopen : Undenied env cwd E q) (hrule : E.Rule env cwd q a) :
    G.Rule env cwd q a := by
  have hne : a ≠ .deny := by
    rintro rfl
    exact hopen q hrule (prefix_refl q)
  obtain ⟨e, he, hpath, haccess⟩ := AdditionalPermissionProfile.rule_iff.1 hrule
  have haccepted : Accepted env fs E E cwd q a := by
    refine accepted_iff.2 ⟨_, mem_acceptedOf.2 ⟨e, he,
      within_of_undenied hlinks hexact hopen hrule hpath haccess, rfl⟩, ?_, ?_⟩
    · rw [(materialize_eq ..).1, hpath]
    · rw [(materialize_eq ..).2, haccess]
  have hintersect : (intersectPermissionProfiles env fs E G cwd).Rule env cwd q a := by
    rw [AdditionalPermissionProfile.rule_iff, hsame, ← AdditionalPermissionProfile.rule_iff]
    exact intersect_rule_iff.2 (.inl haccepted)
  exact ((intersect_rule_iff.1 hintersect).resolve_right fun h => hne h.1).rule

/-- Of two protected directories that come first on the two sides, if neither is below a denial,
both are one. -/
theorem first_child_eq {m' : AbsolutePath} {n' : Text}
    (hE : E.policy.metadataChildOfWritableRoot env p cwd = some (m, n))
    (hG : G.policy.metadataChildOfWritableRoot env p cwd = some (m', n'))
    (hsub : ∀ q a, G.Rule env cwd q a → E.Rule env cwd q a)
    (hopen : ∀ w, m = w ++ [n] → Undenied env cwd E w)
    (hopen' : ∀ w, m' = w ++ [n'] → Undenied env cwd E w) :
    m = m' := by
  have hkeep {source : AdditionalPermissionProfile} (hsource : ∀ q a, source.Rule env cwd q a →
      E.Rule env cwd q a)
      {m : AbsolutePath} {n : Text} (hopen : ∀ w, m = w ++ [n] → Undenied env cwd E w) :
      ∀ e ∈ source.entries, entryChild env cwd p e = some (m, n) →
        grantedFileSystemEntryWithinRequest env fs (E.fileSystem.getD {}) e cwd = true := by
    intro e he hchild
    rw [entryChild] at hchild
    split at hchild
    · rename_i haccess
      obtain ⟨w, hpath, hprotected⟩ := Option.bind_eq_some_iff.1 hchild
      obtain ⟨-, hm, -⟩ := protectedChild_eq_some.1 hprotected
      have hwrite : e.access = .write := of_decide_eq_true haccess
      have hrule := hsource w .write (AdditionalPermissionProfile.rule_iff.2 ⟨e, he, hpath, hwrite⟩)
      exact within_of_undenied hlinks hexact (hopen w hm) hrule hpath hwrite
    · cases hchild
  have hfound := congrArg (findSome? (entryChild env cwd p)) hsame
  rw [findSome?_entryChild_intersect, findSome?_entryChild_intersect] at hfound
  rw [metadataChild_eq_findSome?] at hE hG
  change E.entries.findSome? _ = _ at hE
  change G.entries.findSome? _ = _ at hG
  rw [findSome?_filter_of_eq_some hE (hkeep (fun _ _ h => h) hopen),
    findSome?_filter_of_eq_some hG (hkeep hsub hopen')] at hfound
  exact (congrArg Prod.fst (Option.some.inj hfound)).symm

theorem granted_of_seen (hnearest : Nearest (E.Rule env cwd) p q a) (ha : a ≠ .deny)
    (hseen : ¬ Unseen env cwd E G q) :
    G.Rule env cwd q a :=
  granted_of_undenied hlinks hexact hsame (undenied_of_seen hnearest ha hseen) hnearest.rule

variable (hsub : ∀ q a, G.Rule env cwd q a → E.Rule env cwd q a)
variable (hchecked : ∀ q a, E.Rule env cwd q a → a ≠ .deny → Unseen env cwd E G q →
  Contained env cwd E G q ∧ ∀ n ∈ protectedMetadataPathNames, Contained env cwd E G (q ++ [n]))
include hsub hchecked

theorem contained_read (hread : E.policy.canReadPathWithCwd env p cwd = true) :
    G.policy.canReadPathWithCwd env p cwd = true := by
  have hne : E.policy.resolveAccessWithCwd env p cwd ≠ .deny := of_decide_eq_true hread
  obtain ⟨q, hnearest⟩ := exists_nearest_of_ne_deny E.policy_kind hne
  by_cases hunseen : Unseen env cwd E G q
  · have hq : E.policy.canReadPathWithCwd env q cwd = true := by
      rw [canReadPathWithCwd, resolveAccess_eq E.policy_kind hnearest.self]
      exact hread
    have hG := (hchecked q _ hnearest.rule hne hunseen).1.1 hq
    rw [canReadPathWithCwd, granted_resolveAccess_eq hsub hnearest]
    exact hG
  · have hrule := granted_of_seen hlinks hexact hsame hnearest hne hunseen
    refine decide_eq_true fun hdeny => hne ?_
    have hle := (granted_le hsub hnearest hrule).1
    rw [hdeny] at hle
    exact FileSystemAccessMode.deny_le_iff.1 hle

/-- The grant does not protect what the whole writes. -/
theorem contained_unguarded (hwrite : E.policy.canWritePathWithCwd env p cwd = true)
    (hfull : G.policy.hasFullDiskWriteAccess = false) :
    G.policy.isMetadataWriteDenied env p cwd = false := by
  rw [Bool.eq_false_iff]
  intro hdenied
  obtain ⟨m, n, hchild, hopen⟩ := (isMetadataWriteDenied_iff G.policy_kind).1 hdenied
  obtain ⟨c, hc, rfl, hname, hmp⟩ := metadataChild_spec hchild
  obtain ⟨haccess, hguards⟩ := canWrite_eq_true_iff.1 hwrite
  obtain ⟨q, hnearest⟩ := exists_nearest_write E.policy_kind haccess
  -- below the directory the grant is denied as far as it has no entry that writes
  have hdeniedAt (x : AbsolutePath) (hmx : c ++ [n] <+: x) (hxp : x <+: p) :
      ¬ G.policy.canWritePathWithCwd env x cwd = true := by
    intro hx
    refine (canWrite_eq_true_iff.1 hx).2 ⟨hfull, (isMetadataWriteDenied_iff G.policy_kind).2
      ⟨_, _, metadataChild_between hchild hmx hxp,
        fun w hw hmw hwx => hopen w hw hmw (hwx.trans hxp)⟩⟩
  by_cases hmq : c ++ [n] <+: q
  · -- the whole decides by an entry within the directory, which is not the grant's
    have hunseen : Unseen env cwd E G q := by
      by_contra hseen
      exact hopen q (granted_of_seen hlinks hexact hsame hnearest nofun hseen) hmq hnearest.above
    exact hdeniedAt q hmq hnearest.above
      ((hchecked q _ hnearest.rule nofun hunseen).1.2 (canWrite_of_nearest hnearest))
  · have hqc : q <+: c := (above_or_below_child hnearest.above hmp).resolve_right hmq
    have hnone : ∀ w, E.Rule env cwd w .write → c ++ [n] <+: w → ¬ w <+: p := fun w hw hmw hwp =>
      hmq (hmw.trans (hnearest.nearest w _ hw hwp))
    have hcp : c <+: p := (prefix_append _ _).trans hmp
    have hqeq : q = c := Nearest.antisymm hqc (hnearest.nearest c _ (hsub c _ hc) hcp)
    by_cases hunseen : Unseen env cwd E G c
    · exact hdeniedAt _ (prefix_refl _) hmp
        ((hchecked c _ (hsub c _ hc) nofun hunseen).2 n hname |>.2
        (canWrite_child hwrite hmp hnearest (hqc.trans (prefix_append _ _)) hnone))
    · -- then the directory comes first for the whole as well
      have hundenied : Undenied env cwd E c :=
        undenied_of_seen (a := .write) (hqeq ▸ hnearest) nofun hunseen
      have hfullE : E.policy.hasFullDiskWriteAccess = false := by
        by_contra h
        exact hunseen (.inr ⟨by simpa using h, hfull⟩)
      obtain ⟨first, name, hfirst⟩ := exists_metadataChild (hsub c _ hc) hname hmp
      have hopened : ∃ v, E.Rule env cwd v .write ∧ first <+: v ∧ v <+: p := by
        by_contra hnone
        refine hguards ⟨hfullE,
          (isMetadataWriteDenied_iff E.policy_kind).2 ⟨_, _, hfirst, fun v hv hfv hvp => ?_⟩⟩
        exact hnone ⟨v, hv, hfv, hvp⟩
      obtain ⟨v, hv, hfv, hvp⟩ := hopened
      have hfc : first <+: c := hqeq ▸ hfv.trans (hnearest.nearest v _ hv hvp)
      have hfirsteq : first = c ++ [n] := by
        refine first_child_eq hlinks hexact hsame hfirst hchild hsub ?_ ?_
        · rintro w rfl d hd hdw
          exact hundenied d hd (hdw.trans ((prefix_append _ _).trans hfc))
        · intro w hw
          rw [append_inj_left' hw rfl] at hundenied
          exact hundenied
      have hlength := hfc.length_le
      rw [hfirsteq, length_append, length_singleton] at hlength
      omega

theorem contained (p : AbsolutePath) : Contained env cwd E G p := by
  refine ⟨contained_read hlinks hexact hsame hsub hchecked, fun hwrite => ?_⟩
  have haccess := (canWrite_eq_true_iff.1 hwrite).1
  obtain ⟨q, hnearest⟩ := exists_nearest_write E.policy_kind haccess
  refine canWrite_eq_true_iff.2 ⟨?_, ?_⟩
  · by_cases hunseen : Unseen env cwd E G q
    · have hq := canWrite_of_nearest hnearest
      have hG := (hchecked q _ hnearest.rule nofun hunseen).1.2 hq
      rw [granted_resolveAccess_eq hsub hnearest]
      exact (canWrite_eq_true_iff.1 hG).1
    · have hrule := granted_of_seen hlinks hexact hsame hnearest nofun hunseen
      obtain ⟨hle, hge⟩ := granted_le hsub hnearest hrule
      exact le_antisymm hle hge
  rintro ⟨hfull, hdenied⟩
  rw [contained_unguarded hlinks hexact hsame hsub hchecked hwrite hfull] at hdenied
  cases hdenied

end Main

section Alike

variable {E' : AdditionalPermissionProfile} (h : E.policy.Alike E'.policy)
include h

theorem contained_congr : Contained env cwd E G p ↔ Contained env cwd E' G p := by
  rw [Contained, Contained, h.same.canRead_eq, h.canWrite_eq]

theorem unseen_congr : Unseen env cwd E G q ↔ Unseen env cwd E' G q := by
  rw [Unseen, Unseen, h.same.hasFullDiskWriteAccess_eq]
  simp only [AdditionalPermissionProfile.Rule, h.same.rule_iff]

end Alike

theorem apply_of_preapproved {session turn additional : Option AdditionalPermissionProfile}
    {sandboxPermissions : ExecPolicy.SandboxPermissions}
    (h : (applyGrantedTurnPermissions env fs session turn cwd sandboxPermissions
      additional).permissionsPreapproved = true) :
    ∃ effective granted, mergePermissionProfiles session turn = some granted ∧
      mergePermissionProfiles additional (some granted) = some effective ∧
      (applyGrantedTurnPermissions env fs session turn cwd sandboxPermissions
        additional).additionalPermissions =
        some effective ∧
      intersectPermissionProfiles env fs effective granted cwd =
        intersectPermissionProfiles env fs effective effective cwd := by
  rw [applyGrantedTurnPermissions] at h ⊢
  by_cases hescalated : sandboxPermissions = .requireEscalated
  · rw [if_pos hescalated] at h
    cases h
  · rw [if_neg hescalated] at h ⊢
    dsimp only at h ⊢
    cases hgranted : mergePermissionProfiles session turn with
    | none =>
      rw [hgranted] at h
      simp at h
    | some granted =>
      rw [hgranted] at h
      cases heffective : mergePermissionProfiles additional (some granted) with
      | none =>
        rw [heffective] at h
        cases h
      | some effective =>
        rw [heffective] at h
        exact ⟨effective, granted, rfl, heffective, rfl, of_decide_eq_true h⟩

/-- Permissions that need no new approval enable the network only if the grant does. They stay
within the grant just when they do so at each entry that the comparison does not see, and at the
protected names directly below it. -/
theorem preapproved_within_grant {session turn additional : Option AdditionalPermissionProfile}
    {sandboxPermissions : ExecPolicy.SandboxPermissions} (hlinks : fs.NoSymlinks)
    (hexact : ∀ profile, additional = some profile ∨
      mergePermissionProfiles session turn = some profile → profile.Exact)
    (hpreapproved : (applyGrantedTurnPermissions env fs session turn cwd sandboxPermissions
      additional).permissionsPreapproved = true) :
    ∃ effective granted,
      (applyGrantedTurnPermissions env fs session turn cwd sandboxPermissions
        additional).additionalPermissions =
        some effective ∧
      mergePermissionProfiles session turn = some granted ∧
      (effective.networkEnabled = true → granted.networkEnabled = true) ∧
      ((∀ p, Contained env cwd effective granted p) ↔
        ∀ q a, (combined additional granted).Rule env cwd q a → a ≠ .deny →
          Unseen env cwd (combined additional granted) granted q →
          Contained env cwd (combined additional granted) granted q ∧
            ∀ n ∈ protectedMetadataPathNames, Contained env cwd
              (combined additional granted) granted (q ++ [n])) := by
  obtain ⟨effective, granted, hgranted, heffective, hreturned, hsame⟩ :=
    apply_of_preapproved hpreapproved
  have halike := alike_merge heffective
  have hmem (e : FileSystemSandboxEntry) : e ∈ effective.entries ↔
      e ∈ (combined additional granted).entries :=
    halike.same.mem_iff e
  refine ⟨effective, granted, hreturned, hgranted, fun henabled => ?_, ?_⟩
  · have hnetwork := congrArg AdditionalPermissionProfile.network hsame
    by_contra hdisabled
    simp only [intersectPermissionProfiles, henabled, hdisabled] at hnetwork
    simp at hnetwork
  simp only [← contained_congr halike, ← unseen_congr halike]
  constructor
  · exact fun h q a _ _ _ => ⟨h q, fun n _ => h _⟩
  · intro h
    refine contained hlinks ?_ (congrArg AdditionalPermissionProfile.entries hsame) ?_ ?_
    · intro e he
      rcases mem_append.1 ((hmem e).1 he) with he | he
      · cases additional with
        | none => cases he
        | some profile => exact hexact profile (.inl rfl) e he
      · exact hexact granted (.inr hgranted) e he
    · intro q a hrule
      obtain ⟨e, he, hpath, haccess⟩ := AdditionalPermissionProfile.rule_iff.1 hrule
      refine AdditionalPermissionProfile.rule_iff.2 ⟨e, ?_, hpath, haccess⟩
      rw [hmem]
      exact mem_append_right _ he
    · intro q a hrule
      exact h q a (halike.same.rule_iff.1 hrule)

/-- A second request for a directory that was granted. -/
theorem preapproved_within_grant_again :
    let granted := pathProfile [(["a"], .write)]
    let env := bareEnv
    let returned := applyGrantedTurnPermissions env emptyFileSystem none (some granted)
        [] .withAdditionalPermissions
      (some granted)
    returned.permissionsPreapproved = true ∧
      ∃ effective, returned.additionalPermissions = some effective ∧
        ∀ p, Contained env [] effective granted p := by
  intro granted env returned
  have hpreapproved : returned.permissionsPreapproved = true := by decide +kernel
  have hexact : ∀ profile, some granted = some profile ∨
      mergePermissionProfiles none (some granted) = some profile →
      profile.Exact := by
    rintro profile (h | h) <;> cases h <;> exact exact_pathProfile _
  obtain ⟨effective, _, hreturned, hgranted, -, hcontained⟩ :=
    preapproved_within_grant noSymlinks_emptyFileSystem hexact hpreapproved
  cases hgranted
  refine ⟨hpreapproved, effective, hreturned, hcontained.2 fun q a _ _ hunseen => ?_⟩
  -- nothing is denied, and neither side has access to the full disk
  rcases hunseen with ⟨d, hd, -⟩ | ⟨hfull, -⟩
  · obtain ⟨e, he, -, haccess⟩ := AdditionalPermissionProfile.rule_iff.1 hd
    exact absurd haccess
      ((by decide : ∀ e ∈ (combined (some granted) granted).entries, e.access ≠ .deny) e he)
  · exact absurd hfull (by decide +kernel)

/-- An entry below a denial is used without approval: the grant only reads `/x`. -/
theorem write_below_denial_preapproved :
    let additional := pathProfile [(["a"], .deny), (["a", "b"], .write)]
    let granted := pathProfile [(["x"], .read)]
    let env := bareEnv
    let returned := applyGrantedTurnPermissions env emptyFileSystem none (some granted)
        [] .withAdditionalPermissions
      (some additional)
    let p := ["a".toList, "b".toList, "y".toList]
    returned.permissionsPreapproved = true ∧
      returned.additionalPermissions.any (·.policy.canWritePathWithCwd env p []) = true ∧
      granted.policy.canReadPathWithCwd env p [] = false := by
  decide +kernel

end Preapproved

end OmniDoer.Permissions
