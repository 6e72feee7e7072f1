import OmniDoer.Verification.ApplyPatch.Lines
import OmniDoer.Verification.ApplyPatch.Reviewed

/-! # Whether the review tells what is applied

Of the hunks only the paths matter. Where these are compatible, what is reviewed is what is
applied. Where they are not, hunks that each put a line of their own at the end of a file are
reviewed and applied, and the files tell that the changes were not the ones under review. -/

namespace OmniDoer.ApplyPatch

open Rust Effects Edits Tables List

section Calm

/-! Where no operation meets a fault and no path is a directory, hunks that can be applied as
edits are applied, and hunks that find their files are reviewed. -/

open Option

variable {π : Type} [DecidableEq π] {host : Host π} {d : Disk π} {path cwd : π}

omit [DecidableEq π] in
theorem updateEdit_writes {dest : Option π} {chunks : List UpdateFileChunk}
    {files : π → Option Text}
    {ws : List (π × Option Text)} (h : (updateEdit host path dest chunks).writes files = some ws) :
    ∃ new, (files path).bind (rewriting host path chunks) = some new := by
  cases dest with
  | none | some =>
    obtain ⟨new, hnew, -⟩ := map_eq_some_iff.1 h
    exact ⟨new, hnew⟩

variable {files' : π → Option Text}

variable {hunk : Hunk} {e : Edit π Text} (he : hunk.edit host cwd = .ok e)

include he in
theorem applyHunk_calm (hcalm : Calm d) (happly : e.apply d.files = some files')
    (delta : AppliedPatchDelta π) :
    (applyHunk host cwd hunk delta).Gives (exec host noFault)
      (fun _ d' => Calm d' ∧ d'.files = files') d := by
  refine (applyHunk_ends cwd hunk delta).mono fun r d' ⟨happlied, hcompletes⟩ => ?_
  have hcompletes := hcompletes e he ⟨fun _ => rfl, hcalm⟩
  cases r with
  | error failure => exact nomatch happly.symm.trans hcompletes
  | ok delta' =>
    obtain ⟨e', he', happly', -⟩ := happlied
    cases he.symm.trans he'
    exact ⟨delta', rfl, hcompletes.calm, some.inj (happly'.symm.trans happly)⟩

variable {hunks : List Hunk} {edits : List (Edit π Text)}
  (hedits : Forall₂ (fun hunk e => hunk.edit host cwd = .ok e) hunks edits)

include hedits in
theorem applyEach_calm (hcalm : Calm d)
    (happly : applyAll edits d.files = some files') (delta : AppliedPatchDelta π)
    (affected : AffectedPaths) :
    (applyEach host cwd hunks delta affected).Gives (exec host noFault)
      (fun _ d' => d'.files = files') d := by
  induction hedits generalizing d delta affected with
  | nil =>
    cases happly
    exact .pure rfl
  | @cons hunk e rest edits he _ ih =>
    obtain ⟨s, hs, happly⟩ := bind_eq_some_iff.1 happly
    refine (applyHunk_calm he hcalm hs delta).bind ?_
    rintro delta₁ d₁ ⟨hcalm₁, rfl⟩
    exact ih hcalm₁ happly delta₁ (affected.with hunk)

theorem readForReview_calm {text : Text} (htext : d.files path = some text) (context : String) :
    (readForReview host context path).Gives (exec host noFault)
      (fun x d' => x = text ∧ d'.files = d.files) d := by
  have hexec : exec host noFault (.readFileText path) d =
      (.ok text, { d with ops := d.ops + 1 }) := by
    simp [exec, noFault, perform, htext]
  refine .op ?_
  rw [hexec]
  exact .pure ⟨rfl, rfl⟩

include he in
theorem reviewHunk_calm
    (hpath : hunk.resolvePath host cwd = .ok path) (hwrites : (e.writes d.files).isSome = true) :
    (reviewHunk host cwd path hunk).Gives (exec host noFault)
      (fun _ d' => d'.files = d.files) d := by
  obtain ⟨ws, hws⟩ := isSome_iff_exists.1 hwrites
  obtain ⟨path', hpath', hcases⟩ := edit_cases he
  obtain rfl : path = path' := Except.ok.inj (hpath.symm.trans hpath')
  rcases hcases with ⟨name, contents, rfl, rfl⟩ | ⟨name, rfl, rfl⟩ |
    ⟨name, movePath, chunks, dest, rfl, hdest, rfl⟩
  · exact .pure rfl
  · obtain ⟨text, htext, -⟩ := map_eq_some_iff.1 hws
    exact (readForReview_calm htext _).bind fun _ d' h => .pure h.2
  · obtain ⟨new, hnew⟩ := updateEdit_writes hws
    obtain ⟨original, horiginal, hnew⟩ := bind_eq_some_iff.1 hnew
    refine (readForReview_calm horiginal _).bind ?_
    rintro x d' ⟨rfl, hfiles⟩
    rw [rewriting_eq_some_iff.1 hnew]
    rw [hdest]
    exact .pure hfiles

include hedits in
theorem reviewEach_calm (hwrites : ∀ e ∈ edits, (e.writes d.files).isSome = true)
    (changes : Changes π) :
    (reviewEach host cwd hunks changes).Gives (exec host noFault)
      (fun _ d' => d'.files = d.files) d := by
  induction hedits generalizing d changes with
  | nil => exact .pure rfl
  | @cons hunk e rest edits he _ ih =>
    change Prog.Gives (exec host noFault) _
      (Prog.ofExcept ((hunk.resolvePath host cwd).mapError ApplyPatchError.pathUri) >>= _) d
    obtain ⟨path, hpath, -⟩ := edit_cases he
    rw [Hunk.resolvePath, hpath]
    refine (reviewHunk_calm he hpath (hwrites e mem_cons_self)).bind fun change d₁ h₁ => ?_
    have hrun : (reviewEach host cwd rest (changes.insert (path, change))).Gives
        (exec host noFault) (fun _ d' => d'.files = d₁.files) d₁ :=
      ih (fun e he => h₁ ▸ hwrites e (mem_cons_of_mem _ he)) _
    rw [h₁] at hrun
    exact hrun

end Calm

section Lines

def lineOf (n : ℕ) : Text := List.replicate (n + 1) 'a'

def textOf (numbers : List ℕ) : Text := numbers.flatMap fun n => lineOf n ++ ['\n']

theorem lineOf_injective : Function.Injective lineOf := by
  intro n m h
  have hlength := congrArg length h
  simpa [lineOf] using hlength

variable (numbers : List ℕ)

theorem endsEmpty_map_lineOf : endsEmpty (numbers.map lineOf) = false := by
  induction numbers using reverseRecOn with
  | nil => rfl
  | append_singleton numbers n =>
    rw [map_append, map_singleton, endsEmpty_concat]
    rfl

theorem splitNewlines_textOf :
    splitNewlines (textOf numbers) = numbers.map lineOf ++ [[]] := by
  induction numbers with
  | nil => rfl
  | cons n rest ih =>
    have hline : ∀ c ∈ lineOf n, (c == '\n') = false := by
      intro c hc
      rw [eq_of_mem_replicate hc]
      rfl
    have htext : textOf (n :: rest) = lineOf n ++ '\n' :: textOf rest := by simp [textOf]
    rw [splitNewlines, splitOn] at ih ⊢
    rw [htext, splitOnP_append_cons_of_forall_mem hline _ rfl, ih]
    rfl

theorem textOf_injective : Function.Injective textOf := by
  intro a b h
  have hlines := congrArg splitNewlines h
  rw [splitNewlines_textOf, splitNewlines_textOf] at hlines
  exact lineOf_injective.list_map (append_cancel_right hlines)

theorem newContents_append (path : Text) (n : ℕ) :
    newContents path [⟨none, [], [lineOf n], false⟩] (textOf numbers) =
      .ok (textOf (numbers ++ [n])) := by
  have hlines : computeReplacements (numbers.map lineOf) path [⟨none, [], [lineOf n], false⟩] =
      .ok [⟨numbers.length, 0, [lineOf n]⟩] := by
    rw [computeReplacements, chunkReplacements, endsEmpty_map_lineOf]
    simp [seekContext, chunkReplacements, bind, Except.bind, pure, Except.pure]
  have hnew : applyReplacements (numbers.map lineOf) [⟨numbers.length, 0, [lineOf n]⟩] =
      (numbers ++ [n]).map lineOf := by
    have hlength : numbers.length = (numbers.map lineOf).length := (length_map _).symm
    rw [hlength]
    simp [applyReplacements, applyReplacement, -length_map]
  have hsplit : (if endsEmpty (numbers.map lineOf ++ [[]]) then
      (numbers.map lineOf ++ [[]]).dropLast
      else numbers.map lineOf ++ [[]]) = numbers.map lineOf := by
    rw [endsEmpty_concat]
    exact dropLast_concat
  rw [newContents, splitNewlines_textOf, hsplit, hlines]
  change Except.ok (joinNewlines (if endsEmpty (applyReplacements _ _) then _ else _)) = _
  rw [hnew, endsEmpty_map_lineOf]
  rw [← splitNewlines_textOf]
  exact congrArg _ (intercalate_splitOn _)

end Lines

def Hunk.blank : Hunk → Hunk
  | .addFile path _ => .addFile path []
  | .deleteFile path => .deleteFile path
  | .updateFile path movePath _ => .updateFile path movePath []

/-- The hunk of these paths that puts line `n` at the end of a file. -/
def Hunk.numbered (n : ℕ) : Hunk → Hunk
  | .addFile path _ => .addFile path (textOf [n])
  | .deleteFile path => .deleteFile path
  | .updateFile path movePath _ => .updateFile path movePath [⟨none, [], [lineOf n], false⟩]

@[simp] theorem Hunk.blank_numbered (n : ℕ) (hunk : Hunk) :
    (hunk.numbered n).blank = hunk.blank := by
  cases hunk <;> rfl

def numberedHunks : ℕ → List Hunk → List Hunk
  | _, [] => []
  | n, hunk :: rest => hunk.numbered n :: numberedHunks (n + 1) rest

theorem map_blank_numberedHunks (n : ℕ) (hunks : List Hunk) :
    (numberedHunks n hunks).map Hunk.blank = hunks.map Hunk.blank := by
  induction hunks generalizing n with
  | nil => rfl
  | cons hunk rest ih => simp [numberedHunks, ih]

variable {π : Type} {host : Host π} {cwd : π}

theorem edit_of_blank {hunk hunk' : Hunk} (hblank : hunk'.blank = hunk.blank) {e : Edit π Text}
    (he : hunk.edit host cwd = .ok e) :
    ∃ e', hunk'.edit host cwd = .ok e' ∧ ∀ n, e'.numbered n = e.numbered n := by
  obtain ⟨path, hpath, hcases⟩ := edit_cases he
  rcases hcases with ⟨name, contents, rfl, rfl⟩ | ⟨name, rfl, rfl⟩ |
    ⟨name, movePath, chunks, dest, rfl, hdest, rfl⟩
  · cases hunk' with
    | addFile name' contents' =>
      cases hblank
      exact ⟨_, edit_add hpath contents', fun _ => rfl⟩
    | deleteFile | updateFile => cases hblank
  · cases hunk' with
    | deleteFile name' =>
      cases hblank
      exact ⟨_, edit_delete hpath, fun _ => rfl⟩
    | addFile | updateFile => cases hblank
  · cases hunk' with
    | updateFile name' movePath' chunks' =>
      cases hblank
      refine ⟨_, (edit_update hpath).2 ⟨_, hdest, rfl⟩, fun n => ?_⟩
      cases dest <;> rfl
    | addFile | deleteFile => cases hblank

theorem edits_of_blank {hunks hunks' : List Hunk} {edits : List (Edit π Text)} (n : ℕ)
    (hblank : hunks'.map Hunk.blank = hunks.map Hunk.blank)
    (hedits : List.Forall₂ (fun hunk e => hunk.edit host cwd = .ok e) hunks edits) :
    ∃ edits', List.Forall₂ (fun hunk e => hunk.edit host cwd = .ok e) hunks' edits' ∧
      numberedFrom n edits' = numberedFrom n edits := by
  induction hedits generalizing hunks' n with
  | nil =>
    rw [map_eq_nil_iff.1 hblank]
    exact ⟨[], .nil, rfl⟩
  | @cons hunk e rest edits he _ ih =>
    obtain ⟨hunk', rest', rfl, hhead, htail⟩ := map_eq_cons_iff.1 hblank
    obtain ⟨e', he', hnumbered⟩ := edit_of_blank hhead he
    obtain ⟨edits', hedits', hrest⟩ := ih (n + 1) htail
    refine ⟨e' :: edits', .cons he' hedits', ?_⟩
    rw [numberedFrom, numberedFrom, hnumbered, hrest]

theorem edit_numbered {hunk : Hunk} {e : Edit π Text} (n : ℕ) (he : hunk.edit host cwd = .ok e) :
    ∃ e', (hunk.numbered n).edit host cwd = .ok e' ∧ Encodes textOf e' (e.numbered n) := by
  obtain ⟨path, hpath, hcases⟩ := edit_cases he
  rcases hcases with ⟨name, contents, rfl, rfl⟩ | ⟨name, rfl, rfl⟩ |
    ⟨name, movePath, chunks, dest, rfl, hdest, rfl⟩
  · exact ⟨_, edit_add hpath _, rfl, rfl, fun t => rfl⟩
  · refine ⟨_, edit_delete hpath, rfl, rfl, fun t => ?_⟩
    simp [Edit.numbered, Edit.writes, encoded, Function.comp_def]
  · have hrewriting (numbers : List ℕ) : rewriting host path [⟨none, [], [lineOf n], false⟩]
        (textOf numbers) = some (textOf (numbers ++ [n])) :=
      rewriting_eq_some_iff.2 (newContents_append numbers _ n)
    refine ⟨_, (edit_update hpath).2 ⟨_, hdest, rfl⟩, ?_, ?_, fun t => ?_⟩
    · cases dest <;> rfl
    · cases dest <;> rfl
    · cases dest with
      | none | some =>
        cases hfile : t path with
        | none => simp [updateEdit, Edit.numbered, Edit.writes, encoded, hfile]
        | some numbers => simp [updateEdit, Edit.numbered, Edit.writes, encoded, hfile, hrewriting]

theorem edits_numbered {hunks : List Hunk} {edits : List (Edit π Text)} (n : ℕ)
    (hedits : List.Forall₂ (fun hunk e => hunk.edit host cwd = .ok e) hunks edits) :
    ∃ edits', List.Forall₂ (fun hunk e => hunk.edit host cwd = .ok e)
      (numberedHunks n hunks) edits' ∧
      List.Forall₂ (Encodes textOf) edits' (numberedFrom n edits) := by
  induction hedits generalizing n with
  | nil => exact ⟨[], .nil, .nil⟩
  | cons he _ ih =>
    obtain ⟨e', he', hencodes⟩ := edit_numbered n he
    obtain ⟨edits', hedits', hrest⟩ := ih (n + 1)
    exact ⟨e' :: edits', .cons he' hedits', .cons hencodes hrest⟩

section Runs

variable [DecidableEq π] {fault : ℕ → Option IoError} {d : Disk π} {hunks : List Hunk}
  {edits : List (Edit π Text)}

theorem applyHunks_run {delta : AppliedPatchDelta π}
    (h : ((applyHunks host cwd hunks).run (exec host fault) d).1 = .ok (.ok delta)) :
    ∃ edits, editsOf host cwd hunks = .ok edits ∧
      applyAll edits d.files =
        some ((applyHunks host cwd hunks).run (exec host fault) d).2.files := by
  rw [applyHunks, Prog.run_handle, Prog.run_map] at h ⊢
  cases hrun : (applyHunksToFiles host cwd hunks).run (exec host fault) d with
  | mk r d' =>
    rw [hrun] at h
    cases r with
    | error failure => cases h
    | ok result =>
      obtain ⟨edits, hedits, happly⟩ := applied (congrArg Prod.fst hrun)
      rw [hrun] at happly
      exact ⟨edits, hedits, happly⟩

theorem applyHunks_calm {files' : π → Option Text} (hcalm : Calm d) (hhunks : hunks ≠ [])
    (hedits : List.Forall₂ (fun hunk e => hunk.edit host cwd = .ok e) hunks edits)
    (happly : applyAll edits d.files = some files') :
    ∃ delta, ((applyHunks host cwd hunks).run (exec host noFault) d).1 = .ok (.ok delta) ∧
      ((applyHunks host cwd hunks).run (exec host noFault) d).2.files = files' := by
  obtain ⟨result, hresult, hfiles⟩ := applyEach_calm hedits hcalm happly .empty {}
  rw [applyHunks, Prog.run_handle, Prog.run_map, applyHunksToFiles, if_neg hhunks]
  cases hrun : (applyEach host cwd hunks .empty {}).run (exec host noFault) d with
  | mk r d' =>
    rw [hrun] at hresult hfiles
    obtain rfl : r = .ok result := hresult
    exact ⟨_, rfl, hfiles⟩

theorem verify_calm (patch : Text)
    (hedits : List.Forall₂ (fun hunk e => hunk.edit host cwd = .ok e) hunks edits)
    (hwrites : ∀ e ∈ edits, (e.writes d.files).isSome = true) :
    ∃ action, ((tryVerifyApplyPatchArgs host { patch, hunks } cwd).run (exec host noFault) d).1 =
      .ok action ∧ action.cwd = cwd := by
  have hgives : (tryVerifyApplyPatchArgs host { patch, hunks } cwd).Gives (exec host noFault)
      (fun action _ => action.cwd = cwd) d :=
    (reviewEach_calm hedits hwrites .empty).bind fun _ _ _ => .pure rfl
  obtain ⟨action, haction, hcwd⟩ := hgives
  exact ⟨action, haction, hcwd⟩

end Runs

def emptyFiles : Disk π where
  files := encoded textOf fun _ => some []
  directories := fun _ => false

variable {edits edits' : List (Edit π Text)}
  (hencodes : List.Forall₂ (Encodes textOf) edits' (numberedFrom 0 edits))

include hencodes in
theorem numbered_writes : ∀ e ∈ edits', (e.writes (emptyFiles : Disk π).files).isSome = true := by
  intro e' he'
  obtain ⟨e, he, hencodes⟩ := (exists_encodes hencodes).2 e' he'
  rw [emptyFiles, hencodes.writes]
  obtain ⟨before, after, hsplit⟩ := append_of_mem he
  obtain ⟨before', e₀, after', -, rfl, -⟩ := exists_of_mem_numberedFrom hsplit
  obtain ⟨ws, hws, -⟩ := e₀.numbered_writes_empty (0 + before'.length)
  rw [hws]
  rfl

variable [DecidableEq π]

include hencodes in
theorem numbered_applyAll {t' : π → Option (List ℕ)}
    (ht' : applyAll (numberedFrom 0 edits) (fun _ => some []) = some t') :
    applyAll edits' (emptyFiles : Disk π).files = some (encoded textOf t') := by
  rw [emptyFiles, applyAll_encoded hencodes, ht']
  rfl

variable (host cwd) in
/-- Whatever the files and the hunks hold, what is reviewed is what is applied, exactly when
the paths of the hunks are compatible. -/
theorem reviewed_iff_applied (hunks : List Hunk) :
    (∀ (args : ApplyPatchArgs) (base : π) (d : Disk π) (fault fault' : ℕ → Option IoError)
        (action : ApplyPatchAction π) (delta : AppliedPatchDelta π),
      args.hunks.map Hunk.blank = hunks.map Hunk.blank →
      ((tryVerifyApplyPatchArgs host args base).run (exec host fault) d).1 = .ok action →
      action.cwd = cwd →
      ((applyHunks host cwd args.hunks).run (exec host fault') d).1 = .ok (.ok delta) →
      Performed action.changes d.files
        ((applyHunks host cwd args.hunks).run (exec host fault') d).2.files) ↔
    ∀ edits, editsOf host cwd hunks = .ok edits → Feasible edits → Compatible edits := by
  constructor
  · intro h edits hedits hfeasible
    rw [editsOf_eq_ok_iff] at hedits
    cases hhunks : hunks with
    | nil =>
      subst hhunks
      cases hedits
      intro before e after hsplit
      simp at hsplit
    | cons hunk rest =>
      obtain ⟨t', ht'⟩ := Option.isSome_iff_exists.1 hfeasible
      obtain ⟨edits', hedits', hencodes⟩ := edits_numbered 0 hedits
      have hne : numberedHunks 0 hunks ≠ [] := by
        rw [hhunks]
        exact cons_ne_nil _ _
      obtain ⟨action, haction, hcwd⟩ := verify_calm [] hedits' (numbered_writes hencodes)
      obtain ⟨delta, hdelta, hfiles⟩ :=
        applyHunks_calm (fun _ => rfl) hne hedits' (numbered_applyAll hencodes ht')
      have hperformed := h _ cwd emptyFiles noFault noFault action delta
        (map_blank_numberedHunks 0 hunks) haction hcwd hdelta
      rw [hfiles] at hperformed
      obtain ⟨reviewed, hreviewed, hall, hchanges⟩ := verified haction
      rw [hcwd, editsOf_eq_ok_iff.2 hedits', Except.ok.injEq] at hreviewed
      rw [hchanges, performed_iff_kept hall, ← hreviewed] at hperformed
      exact compatible_of_kept ht' (kept_of_encoded hencodes textOf_injective hperformed)
  · rintro h args base d fault fault' action delta hblank haction rfl hdelta
    obtain ⟨edits, hedits, happly⟩ := applyHunks_run hdelta
    obtain ⟨reviewed, hreviewed, hall, hchanges⟩ := verified haction
    obtain rfl : edits = reviewed.map Prod.fst := Except.ok.inj (hedits.symm.trans hreviewed)
    obtain ⟨edits₀, hedits₀, hnumbered⟩ :=
      edits_of_blank 0 hblank.symm (editsOf_eq_ok_iff.1 hedits)
    have hfeasible : Feasible edits₀ := by
      rw [Feasible, hnumbered]
      exact feasible_of_applyAll happly
    have hcompatible := h edits₀ (editsOf_eq_ok_iff.2 hedits₀) hfeasible
    rw [← compatible_numberedFrom (n := 0), hnumbered, compatible_numberedFrom] at hcompatible
    rw [hchanges, performed_iff_kept hall]
    exact kept_of_compatible hcompatible happly

/-- Paths that are names. -/
def nameHost : Host Text where
  join := fun _ name => .ok name
  nativeText := id
  parent := fun _ => none
  ancestors := fun _ => []
  unifiedDiff := fun old new => old ++ new

def twoUpdates : List Hunk :=
  [.updateFile ['f'] none [⟨none, [['x']], [['y']], false⟩],
   .updateFile ['f'] none [⟨none, [], [['z']], false⟩]]

def oneLine : Disk Text where
  files := fun q => if q = ['f'] then some ['x', '\n'] else none
  directories := fun _ => false

/-- The first of two updates of a file is not under review, but it is applied. -/
theorem earlier_update_unreviewed : ∃ action delta,
    ((tryVerifyApplyPatchArgs nameHost { patch := [], hunks := twoUpdates } []).run
      (exec nameHost noFault) oneLine).1 = .ok action ∧
    ((applyHunks nameHost action.cwd twoUpdates).run (exec nameHost noFault) oneLine).1 =
      .ok (.ok delta) ∧
    ¬ Performed action.changes oneLine.files
      ((applyHunks nameHost action.cwd twoUpdates).run
        (exec nameHost noFault) oneLine).2.files := by
  refine ⟨_, _, rfl, rfl, fun h => ?_⟩
  have hholds := h.holds (['f'], _) mem_cons_self
  revert hholds
  change some _ = some _ → False
  decide

end OmniDoer.ApplyPatch
