import OmniDoer.Verification.ApplyPatch.Agreement
import OmniDoer.Verification.Permissions.FullDisk

/-! # The paths that are checked and the paths that are written

The safety check sees the paths of the changes under review. An application writes and removes
the paths of all hunks, one after another, until one of them fails. Parent directories that
are created for a file are not counted among its writes. -/

namespace OmniDoer.ApplyPatch

open Rust Effects Edits Tables List

variable {π : Type}

def FsOp.target : FsOp π → Option π
  | .writeFile path _ => some path
  | .remove path => some path
  | _ => none

section Writes

variable [DecidableEq π] {ε α β : Type} {host : Host π} {fault : ℕ → Option IoError} {path cwd : π}
  {d : Disk π}

def Only (host : Host π) (fault : ℕ → Option IoError) (allowed : π → Prop)
    (p : Prog (FsOp π) FsOp.Ans ε α) (d : Disk π) : Prop :=
  ∀ o ∈ p.trace (exec host fault) d, ∀ q ∈ o.target, allowed q

variable {allowed : π → Prop}

theorem only_pure (a : α) : Only host fault allowed (Prog.pure a : Prog (FsOp π) FsOp.Ans ε α) d :=
  fun _ h => nomatch h

theorem only_raise (e : ε) :
    Only host fault allowed (Prog.raise e : Prog (FsOp π) FsOp.Ans ε α) d :=
  fun _ h => nomatch h

theorem only_op {o : FsOp π} {k : o.Ans → Prog (FsOp π) FsOp.Ans ε α}
    (ho : ∀ q ∈ o.target, allowed q)
    (hk : ∀ x d', Only host fault allowed (k x) d') : Only host fault allowed (Prog.op o k) d := by
  intro o' ho'
  rcases mem_cons.1 ho' with rfl | ho'
  · exact ho
  · exact hk _ _ o' ho'

variable {p : Prog (FsOp π) FsOp.Ans ε α} (hp : Only host fault allowed p d)

include hp in
theorem Only.bind {f : α → Prog (FsOp π) FsOp.Ans ε β}
    (hf : ∀ a d', Only host fault allowed (f a) d') :
    Only host fault allowed (p >>= f) d :=
  Prog.forall_trace_bind hp fun a _ => hf a _

include hp in
theorem Only.after {f : α → Prog (FsOp π) FsOp.Ans ε β} {mid : Except ε α → Disk π → Prop}
    (hends : p.Ends (exec host fault) mid d)
    (hf : ∀ a d', mid (.ok a) d' → Only host fault allowed (f a) d') :
    Only host fault allowed (p >>= f) d := by
  refine Prog.forall_trace_bind hp fun a ha => hf a _ ?_
  rwa [Prog.Ends, ha] at hends

variable (delta : AppliedPatchDelta π)

theorem only_orFail {x : Except AnyError α} :
    Only host fault allowed (orFail delta x) d := by
  cases x with
  | ok a => exact only_pure a
  | error e => exact only_raise _

theorem only_readFileText : Only host fault allowed (readFileText path) d :=
  only_op (fun _ h => nomatch h) fun _ _ => only_pure _

theorem only_getMetadata : Only host fault allowed (getMetadata path) d :=
  only_op (fun _ h => nomatch h) fun _ _ => only_pure _

theorem only_createDirectory : Only host fault allowed (createDirectory path) d :=
  only_op (fun _ h => nomatch h) fun _ _ => only_pure _

theorem only_writeFile (h : allowed path) (contents : Text) :
    Only host fault allowed (writeFile path contents) d :=
  only_op (fun _ hq => Option.some.inj hq ▸ h) fun _ _ => only_pure _

theorem only_note (exact : Bool) :
    Only host fault allowed (noteExistingPathDeltaSupport path exact) d := by
  refine only_getMetadata.bind fun x d' => ?_
  cases x with
  | ok _ | error _ => exact only_pure _

theorem only_readOptional (exact : Bool) :
    Only host fault allowed (readOptionalFileTextForDelta path exact) d := by
  refine (only_note exact).bind fun noted d' => only_readFileText.bind fun x d' => ?_
  cases x with
  | ok _ | error _ => exact only_pure _

theorem only_writeRetry (h : allowed path) (contents : Text) :
    Only host fault allowed (writeFileWithMissingParentRetry host path contents) d := by
  have hagain (d : Disk π) : Only host fault allowed (do
      return written host path (← writeFile path contents) : PatchProg π
        (Except AnyError Unit)) d :=
    (only_writeFile h contents).bind fun _ _ => only_pure _
  refine (only_writeFile h contents).bind fun x d' => ?_
  cases x with
  | ok _ => exact only_pure _
  | error e =>
    dsimp only
    split
    · cases host.parent path with
      | none => exact hagain d'
      | some parent =>
        refine only_createDirectory.bind fun x d'' => ?_
        cases x with
        | ok _ => exact hagain d''
        | error _ => exact only_pure _
    · exact only_pure _

theorem only_removeOrFail (h : allowed path) (what : String) (expected : Option Text) :
    Only host fault allowed (removeOrFail host what path expected delta) d := by
  have hensure : Only host fault allowed (ensureNotDirectory path) d := by
    refine only_getMetadata.bind fun x d' => ?_
    cases x with
    | ok _ | error _ => exact only_pure _
  have hfree (d : Disk π) :
      Only host fault allowed (removeFailureWasSideEffectFree path expected) d := by
    cases expected with
    | none => exact only_pure _
    | some expected =>
      refine only_readFileText.bind fun x d' => ?_
      cases x with
      | ok _ | error _ => exact only_pure _
  refine hensure.bind fun x d' => ?_
  cases x with
  | error e => exact only_raise _
  | ok _ =>
    refine (only_op (fun _ hq => Option.some.inj hq ▸ h) fun _ _ => only_pure _).bind fun x d' => ?_
    cases x with
    | ok _ => exact only_pure _
    | error e => exact (hfree d').bind fun _ _ => only_raise _

/-- The paths that an edit changes when it finds these files. -/
def Reaches (e : Edit π Text) (files : π → Option Text) (q : π) : Prop :=
  q = e.path ∨ q ∈ e.dest ∧ (e.apply files).isSome = true

theorem only_applyUpdate {movePath : Option Text} {dest : Option π} {chunks : List UpdateFileChunk}
    (hdest : resolveDest host cwd movePath = .ok dest) :
    Only host fault (Reaches (updateEdit host path dest chunks) d.files)
      (applyUpdate host cwd path movePath chunks delta) d := by
  have hpath : Reaches (updateEdit host path dest chunks) d.files path := by
    cases dest <;> exact .inl rfl
  have hderive (d : Disk π) {allowed : π → Prop} :
      Only host fault allowed (deriveNewContentsFromChunks host path chunks) d := by
    refine only_readFileText.bind fun x d' => ?_
    cases x with
    | ok _ | error _ => exact only_pure _
  refine (only_note delta.exact).after (note_gives delta.exact) ?_
  rintro exact d₁ ⟨_, ⟨⟩, h₁, -⟩
  refine (hderive d₁).after (deriveNewContents_gives chunks) ?_
  rintro x d₂ ⟨_, ⟨⟩, h₂, hderived, -⟩
  rw [h₁] at hderived
  cases x with
  | error e => exact only_raise _
  | ok texts =>
    obtain ⟨original, new⟩ := texts
    obtain ⟨hold, hnew⟩ := hderived original new rfl
    cases movePath with
    | none =>
      exact (only_writeFile hpath new).bind fun _ _ => (only_orFail _).bind fun _ _ => only_pure _
    | some name =>
      cases hjoin : host.join cwd name with
      | error e =>
        rw [resolveDest, hjoin] at hdest
        cases hdest
      | ok target =>
        rw [resolveDest, hjoin] at hdest
        cases hdest
        have hmoved : (updateEdit host path (some target) chunks).apply d.files =
            some (Function.update (Function.update d.files target (some new)) path none) := by
          rw [updateEdit, Edit.apply, Edit.writes, hold, Option.bind_some, hnew]
          rfl
        change Only host fault _ (orFail { delta with exact }
          ((host.join cwd name).mapError _) >>= _) d₂
        rw [hjoin]
        exact (only_readOptional exact).bind fun _ _ =>
          (only_writeRetry (.inr ⟨rfl, by rw [hmoved]; rfl⟩) new).bind fun _ _ =>
          (only_orFail _).bind fun _ _ =>
            (only_removeOrFail _ hpath _ _).bind fun _ _ => only_pure _

theorem only_applyEach {hunks : List Hunk} {edits : List (Edit π Text)}
    (hedits : List.Forall₂ (fun hunk e => hunk.edit host cwd = .ok e) hunks edits)
    (affected : AffectedPaths) :
    Only host fault (fun q => ∃ before e after s, edits = before ++ e :: after ∧
      applyAll before d.files = some s ∧
        Reaches e s q) (applyEach host cwd hunks delta affected) d := by
  induction hedits generalizing d delta affected with
  | nil => exact only_pure _
  | @cons hunk e rest edits he _ ih =>
    have hhunk : Only host fault (Reaches e d.files) (applyHunk host cwd hunk delta) d := by
      obtain ⟨path, hpath, hcases⟩ := edit_cases he
      rw [applyHunk, Hunk.resolvePath, hpath]
      rcases hcases with ⟨name, contents, rfl, rfl⟩ | ⟨name, rfl, rfl⟩ |
        ⟨name, movePath, chunks, dest, rfl, hdest, rfl⟩
      · exact (only_readOptional delta.exact).bind fun _ _ =>
          (only_writeRetry (.inl rfl) contents).bind fun _ _ =>
            (only_orFail _).bind fun _ _ => only_pure _
      · exact (only_note delta.exact).bind fun _ _ => only_readFileText.bind fun _ _ =>
          (only_removeOrFail _ (.inl rfl) _ _).bind fun _ _ => only_pure _
      · exact only_applyUpdate delta hdest
    refine Only.after (fun o ho q hq => ⟨[], e, edits, d.files, rfl, rfl, hhunk o ho q hq⟩)
      (applyHunk_ends cwd hunk delta) ?_
    rintro delta₁ d₁ ⟨⟨e', he', happly, -⟩, -⟩
    obtain rfl : e = e' := Except.ok.inj (he.symm.trans he')
    intro o ho q hq
    obtain ⟨before, e', after, s, rfl, hs, hreaches⟩ := ih delta₁ (affected.with hunk) o ho q hq
    refine ⟨e :: before, e', after, s, rfl, ?_, hreaches⟩
    rw [applyAll, happly]
    exact hs

theorem only_applyHunksToFiles {hunks : List Hunk} {edits : List (Edit π Text)}
    (hedits : editsOf host cwd hunks = .ok edits) :
    Only host fault (fun q => ∃ before e after s, edits = before ++ e :: after ∧
      applyAll before d.files = some s ∧ Reaches e s q) (applyHunksToFiles host cwd hunks) d := by
  rw [applyHunksToFiles]
  split
  · exact only_raise _
  · exact only_applyEach .empty (editsOf_eq_ok_iff.1 hedits) {}

end Writes

section Changed

variable [DecidableEq π] {ε α : Type} {host : Host π} {fault : ℕ → Option IoError} {d : Disk π}

theorem exec_changed {o : FsOp π} {q : π} (h : (exec host fault o d).2.files q ≠ d.files q) :
    q ∈ o.target := by
  have hupdate {path : π} {value : Option Text} {files : π → Option Text}
      (hfiles : files = Function.update d.files path value) (hq : files q ≠ d.files q) : some path =
        some q := by
    by_cases hpath : q = path
    · rw [hpath]
    · rw [hfiles, Function.update_of_ne hpath] at hq
      exact absurd rfl hq
  cases o with
  | readFileText path => exact absurd (congrFun exec_read.2 q) h
  | getMetadata path => exact absurd (congrFun exec_metadata q) h
  | createDirectory path => exact absurd (congrFun exec_createDirectory q) h
  | writeFile path contents =>
    rcases @exec_write π _ host fault d path contents with ⟨-, hfiles⟩ | ⟨e, -, hfiles⟩
    · exact hupdate hfiles h
    · exact absurd (congrFun hfiles q) h
  | remove path =>
    rcases @exec_remove π _ host fault d path with ⟨-, -, hfiles⟩ | ⟨e, -, hfiles⟩
    · exact hupdate hfiles h
    · exact absurd (congrFun hfiles q) h

theorem exists_target_of_changed {p : Prog (FsOp π) FsOp.Ans ε α} {q : π}
    (h : (p.run (exec host fault) d).2.files q ≠ d.files q) :
    ∃ o ∈ p.trace (exec host fault) d, q ∈ o.target := by
  induction p generalizing d with
  | pure | raise => exact absurd rfl h
  | op o k ih =>
    by_cases hfirst : (exec host fault o d).2.files q = d.files q
    · rw [← hfirst] at h
      obtain ⟨o', ho', hq⟩ := ih _ h
      exact ⟨o', mem_cons_of_mem _ ho', hq⟩
    · exact ⟨o, mem_cons_self, exec_changed hfirst⟩

omit [DecidableEq π] in
theorem applyEach_append (cwd : π) (a b : List Hunk) (delta : AppliedPatchDelta π)
    (affected : AffectedPaths) :
    applyEach host cwd (a ++ b) delta affected =
      applyEach host cwd a delta affected >>= fun r => applyEach host cwd b r.1 r.2 := by
  induction a generalizing delta affected with
  | nil => rfl
  | cons hunk rest ih =>
    rw [cons_append, applyEach, applyEach, Prog.bind_assoc]
    congr 1
    funext delta'
    exact ih delta' _

end Changed

section Check

/-- The names of a path without dots. -/
def namesOf (path : List Component) : Unix.AbsolutePath :=
  path.filterMap fun component =>
    match component with
    | .normal name => some name
    | _ => none

open Permissions in
/-- The policy of a sandbox, where what it reports about the whole disk is right. -/
def WritePolicy.ofSandboxPolicy (policy : FileSystemSandboxPolicy) (env : Env)
    (cwd : Unix.AbsolutePath)
    (htmp : policy.SlashTmpWritable env cwd) : WritePolicy where
  hasFullDiskWriteAccess := policy.hasFullDiskWriteAccess
  canWritePath path := policy.canWritePathWithCwd env (namesOf path) cwd
  canWritePath_of_full hfull path :=
    (FileSystemSandboxPolicy.canWrite_iff_of_full hfull).2 htmp (namesOf path)

variable [DecidableEq π] (toAbsPath : π → Option (List Component)) (policy : WritePolicy)

/-- A path that may be written: with full access to the disk, or as a native path that the
policy permits. -/
def Writable (q : π) : Prop :=
  (policy.hasFullDiskWriteAccess = true ∨ (toAbsPath q).isSome = true) ∧
    ∀ abs ∈ toAbsPath q, policy.canWritePath (normalizeComponents abs) = true

variable {toAbsPath policy}

omit [DecidableEq π] in
theorem writable_of_isPathWritable {q : π} (h : isPathWritable toAbsPath policy q = true) :
    Writable toAbsPath policy q := by
  rw [isPathWritable] at h
  cases hq : toAbsPath q with
  | none =>
    rw [hq] at h
    cases h
  | some abs =>
    rw [hq] at h
    refine ⟨.inr (by rw [hq]; rfl), fun abs' habs => ?_⟩
    rw [hq] at habs
    cases habs
    exact h

omit [DecidableEq π] in
theorem check_eq_true_iff {action : ApplyPatchAction π} {cwd : π} :
    isWritePatchConstrainedToWritablePaths toAbsPath policy action cwd = true ↔
      policy.hasFullDiskWriteAccess = true ∨ ((toAbsPath cwd).isSome = true ∧
        ∀ q ∈ filePathsForAction action, isPathWritable toAbsPath policy q = true) := by
  rw [isWritePatchConstrainedToWritablePaths, filePathsForAction]
  cases policy.hasFullDiskWriteAccess with
  | true => simp
  | false =>
    cases htoAbs : toAbsPath cwd with
    | none => simp
    | some abs =>
      simp only [Bool.false_eq_true, if_false, Option.isNone_some, all_eq_true,
        false_or, Option.isSome_some, true_and, forall_mem_flatMap]
      refine forall₂_congr fun row _ => ?_
      obtain ⟨path, change⟩ := row
      cases change with
      | add content | delete content => simp [filePathsOf]
      | update diff movePath new => cases movePath <;> simp [filePathsOf]

end Check

variable [DecidableEq π]

/-- The path of every edit is among those that are checked, and so are the destinations when
they are covered. -/
theorem reached_shown {edits before after : List (Edit π Text)} {e : Edit π Text}
    {files s : π → Option Text} {q : π} (hcovered : Covered edits)
    (hsplit : edits = before ++ e :: after)
    (hs : applyAll before files = some s) (hreaches : Reaches e s q) :
    ∃ x ∈ shown edits, q ∈ x.touched := by
  rcases hreaches with rfl | ⟨hdest, happly⟩
  · have hmem : e.path ∈ edits.map Edit.path := by simp [hsplit]
    obtain ⟨x, hx, hpath⟩ := exists_shown_path hmem
    exact ⟨x, hx, hpath ▸ x.path_mem_touched⟩
  · obtain ⟨s', hs'⟩ := Option.isSome_iff_exists.1 happly
    have hrun : applyAll (before ++ [e]) files = some s' := by
      rw [applyAll_append, hs]
      simp [applyAll, hs']
    exact hcovered before e after hsplit (feasible_of_applyAll hrun) q hdest

/-- A policy under which all paths but one may be written. -/
def allBut (q : π) : (π → Option (List Component)) × WritePolicy :=
  (fun p => some (if p = q then [.normal []] else []),
    { hasFullDiskWriteAccess := false
      canWritePath := fun path => path == []
      canWritePath_of_full := fun h => nomatch h })

theorem isPathWritable_allBut {p q : π} :
    isPathWritable (allBut q).1 (allBut q).2 p = true ↔ p ≠ q := by
  by_cases h : p = q <;> simp [isPathWritable, allBut, h, normalizeComponents]

theorem not_writable_allBut (q : π) : ¬ Writable (allBut q).1 (allBut q).2 q := by
  intro h
  have hq := h.2 [.normal []] (by simp [allBut])
  simp [allBut, normalizeComponents] at hq

section Numbered

variable {host : Host π} {cwd : π} {hunks : List Hunk} {edits : List (Edit π Text)}

omit [DecidableEq π] in
theorem numberedHunks_append (n : ℕ) (a b : List Hunk) :
    numberedHunks n (a ++ b) = numberedHunks n a ++ numberedHunks (n + a.length) b := by
  induction a generalizing n with
  | nil => rfl
  | cons hunk a ih =>
    rw [cons_append, numberedHunks, numberedHunks, ih, cons_append, length_cons,
      Nat.add_right_comm, Nat.add_assoc]

omit [DecidableEq π] in
theorem numberedHunks_eq_nil {n : ℕ} : numberedHunks n hunks = [] ↔ hunks = [] := by
  cases hunks <;> simp [numberedHunks]

theorem numbered_reviewed
    (hedits : List.Forall₂ (fun hunk e => hunk.edit host cwd = .ok e) hunks edits) :
    ∃ action,
      ((tryVerifyApplyPatchArgs host { patch := [], hunks := numberedHunks 0 hunks } cwd).run
        (exec host noFault) emptyFiles).1 = .ok action ∧ action.cwd = cwd ∧
      ∀ q, q ∈ filePathsForAction action ↔ ∃ x ∈ shown edits, q ∈ x.touched := by
  obtain ⟨edits', hedits', hencodes⟩ := edits_numbered 0 hedits
  obtain ⟨action, haction, hcwd⟩ := verify_calm [] hedits' (numbered_writes hencodes)
  refine ⟨action, haction, hcwd, fun q => ?_⟩
  obtain ⟨reviewed, hreviewed, hall, hchanges⟩ := verified haction
  rw [hcwd, editsOf_eq_ok_iff.2 hedits', Except.ok.injEq] at hreviewed
  rw [filePathsForAction, hchanges, mem_paths_iff hall, ← hreviewed,
    ← exists_shown_numberedFrom 0 edits q]
  constructor
  · rintro ⟨x, hx, hq⟩
    obtain ⟨y, hy, hxy⟩ := (exists_encodes (shown_encodes hencodes)).2 x hx
    exact ⟨y, hy, hxy.touched ▸ hq⟩
  · rintro ⟨y, hy, hq⟩
    obtain ⟨x, hx, hxy⟩ := (exists_encodes (shown_encodes hencodes)).1 y hy
    exact ⟨x, hx, hxy.touched ▸ hq⟩

theorem numbered_written {before after : List (Edit π Text)} {e : Edit π Text}
    (hedits : List.Forall₂ (fun hunk e => hunk.edit host cwd = .ok e) hunks (before ++ e :: after))
    (hreached : Feasible (before ++ [e])) {q : π} (hq : q ∈ e.touched) :
    ∃ o ∈ (applyHunksToFiles host cwd (numberedHunks 0 hunks)).trace (exec host noFault) emptyFiles,
      q ∈ o.target := by
  have hsplit : before ++ e :: after = (before ++ [e]) ++ after := by simp
  rw [hsplit] at hedits
  -- the hunks up to the one that is reached
  have hfirst := forall₂_take_append _ _ _ hedits
  obtain ⟨t', ht'⟩ := Option.isSome_iff_exists.1 hreached
  obtain ⟨edits', hedits', hencodes⟩ := edits_numbered 0 hfirst
  obtain ⟨result, hresult, hfiles⟩ :=
    applyEach_calm hedits' (fun _ => rfl) (numbered_applyAll hencodes ht') .empty {}
  have hchanged :
      ((applyEach host cwd (numberedHunks 0 (hunks.take (before ++ [e]).length)) .empty {}).run
      (exec host noFault) emptyFiles).2.files q ≠ (emptyFiles : Disk π).files q := by
    rw [hfiles]
    intro hsame
    exact numbered_touched ht' ⟨e, by simp, hq⟩ (Option.map_injective textOf_injective hsame)
  obtain ⟨o, ho, htarget⟩ := exists_target_of_changed hchanged
  refine ⟨o, ?_, htarget⟩
  have hne : numberedHunks 0 hunks ≠ [] := by
    intro hnil
    have hlength := hedits.length_eq
    rw [numberedHunks_eq_nil.1 hnil] at hlength
    simp at hlength
  rw [applyHunksToFiles, if_neg hne, ← take_append_drop (before ++ [e]).length hunks,
    numberedHunks_append, applyEach_append, Prog.trace_bind_of_ok hresult]
  exact mem_append_left _ ho

end Numbered

variable (host : Host π) (cwd : π)

/-- Whatever the files, the hunks and the policy hold, every path that an application writes
or removes is one that the check has found writable, exactly when the paths of the hunks are
covered. -/
theorem check_covers_writes (hunks : List Hunk) :
    (∀ (args : ApplyPatchArgs) (base : π) (d : Disk π) (fault fault' : ℕ → Option IoError)
        (action : ApplyPatchAction π) (toAbsPath : π →
          Option (List Component)) (policy : WritePolicy),
      args.hunks.map Hunk.blank = hunks.map Hunk.blank →
      ((tryVerifyApplyPatchArgs host args base).run (exec host fault) d).1 = .ok action →
      action.cwd = cwd →
      isWritePatchConstrainedToWritablePaths toAbsPath policy action cwd = true →
      ∀ o ∈ (applyHunksToFiles host cwd args.hunks).trace (exec host fault') d, ∀ q ∈ o.target,
        Writable toAbsPath policy q) ↔
    ∀ edits, editsOf host cwd hunks = .ok edits → Covered edits := by
  constructor
  · intro h edits hedits before e after hsplit hreached q hq
    rw [editsOf_eq_ok_iff] at hedits
    by_contra huncovered
    obtain ⟨action, haction, hcwd, hpaths⟩ := numbered_reviewed hedits
    have hwritten : ∃ o ∈ (applyHunksToFiles host cwd (numberedHunks 0 hunks)).trace
        (exec host noFault) emptyFiles, q ∈ o.target :=
      numbered_written (hsplit ▸ hedits) hreached (Edit.dest_mem_touched hq)
    have hcheck : isWritePatchConstrainedToWritablePaths (allBut q).1
        (allBut q).2 action cwd = true := by
      refine check_eq_true_iff.2 (.inr ⟨rfl, fun p hp => isPathWritable_allBut.2 ?_⟩)
      rintro rfl
      exact huncovered ((hpaths p).1 hp)
    obtain ⟨o, ho, htarget⟩ := hwritten
    exact not_writable_allBut q (h _ cwd emptyFiles noFault noFault action _ _
      (map_blank_numberedHunks 0 hunks) haction hcwd hcheck o ho q htarget)
  · rintro h args base d fault fault' action toAbsPath policy hblank haction rfl hcheck o ho q hq
    obtain ⟨reviewed, hreviewed, hall, hchanges⟩ := verified haction
    obtain ⟨edits₀, hedits₀, hnumbered⟩ :=
      edits_of_blank 0 hblank.symm (editsOf_eq_ok_iff.1 hreviewed)
    have hcovered := h edits₀ (editsOf_eq_ok_iff.2 hedits₀)
    rw [← covered_numberedFrom (n := 0), hnumbered, covered_numberedFrom] at hcovered
    rcases check_eq_true_iff.1 hcheck with hfull | ⟨-, hpaths⟩
    · exact ⟨.inl hfull, fun _ _ => policy.canWritePath_of_full hfull _⟩
    · obtain ⟨before, e, after, s, hsplit, hs, hreaches⟩ :=
        only_applyHunksToFiles hreviewed o ho q hq
      refine writable_of_isPathWritable (hpaths q ?_)
      rw [filePathsForAction, hchanges, mem_paths_iff hall]
      exact reached_shown hcovered hsplit hs hreaches

def hiddenMove : List Hunk :=
  [.updateFile ['f'] (some ['g']) [⟨none, [['x']], [['y']], false⟩], .addFile ['f'] ['z']]

def onlyOne : WritePolicy where
  hasFullDiskWriteAccess := false
  canWritePath := fun path => path == [.normal ['f']]
  canWritePath_of_full := fun h => nomatch h

/-- The check permits the patch, which writes a file that must not be written. -/
theorem hidden_move_unchecked : ∃ action,
    ((tryVerifyApplyPatchArgs nameHost { patch := [], hunks := hiddenMove } []).run
      (exec nameHost noFault) oneLine).1 = .ok action ∧
    isWritePatchConstrainedToWritablePaths
      (fun name => some [.normal name]) onlyOne action action.cwd =
      true ∧
    ∃ o ∈ (applyHunksToFiles nameHost action.cwd hiddenMove).trace (exec nameHost noFault) oneLine,
      ∃ q ∈ o.target, ¬ Writable (fun name => some [.normal name]) onlyOne q := by
  refine ⟨_, rfl, rfl, .writeFile ['g'] ['y', '\n'], ?_, ['g'], rfl, fun h => ?_⟩
  · iterate 4 refine mem_cons_of_mem _ ?_
    exact mem_cons_self
  · have hpath := h.2 [.normal ['g']] rfl
    revert hpath
    decide

end OmniDoer.ApplyPatch
