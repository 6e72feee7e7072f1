import Mathlib.Logic.Function.Basic
import Mathlib.Data.List.Basic
import Mathlib.Data.List.Infix
import Mathlib.Data.List.Nodup

/-! Edits of a map one after another, against the last edit of each path read off the map as
it was at first. The two agree for all contents exactly when the paths of the edits are
compatible. -/

namespace Edits

open List Function Option

variable {π β γ : Type*}

/-- An edit. An update and a move say what becomes of the content that they find. -/
inductive Edit (π β : Type*) where
  | add (path : π) (content : β)
  | delete (path : π)
  | update (path : π) (f : β → Option β)
  | move (path dest : π) (f : β → Option β)

namespace Edit

def path : Edit π β → π
  | add path _ => path
  | delete path => path
  | update path _ => path
  | move path _ _ => path

def dest : Edit π β → Option π
  | move _ dest _ => some dest
  | _ => none

/-- Whether the edit makes a new content of an old one. -/
def rewrites : Edit π β → Bool
  | update .. => true
  | move .. => true
  | _ => false

def touched (e : Edit π β) : List π := e.dest.toList ++ [e.path]

theorem path_mem_touched (e : Edit π β) : e.path ∈ e.touched :=
  mem_append_right _ (mem_singleton.2 rfl)

variable {e : Edit π β}

theorem dest_mem_touched {d : π} (h : d ∈ e.dest) : d ∈ e.touched :=
  mem_append_left _ (mem_toList.2 h)

theorem mem_touched_iff {q : π} : q ∈ e.touched ↔ q ∈ e.dest ∨ q = e.path := by
  simp [touched]

/-- What the edit writes, in order, when it finds `files`. -/
def writes (files : π → Option β) : Edit π β → Option (List (π × Option β))
  | add path content => some [(path, some content)]
  | delete path => (files path).map fun _ => [(path, none)]
  | update path f => ((files path).bind f).map fun new => [(path, some new)]
  | move path dest f => ((files path).bind f).map fun new => [(dest, some new), (path, none)]

theorem map_fst_writes {files : π → Option β} {ws : List (π × Option β)}
    (h : e.writes files = some ws) : ws.map Prod.fst = e.touched := by
  cases e <;> simp only [writes, map_eq_some_iff, some.injEq] at h
  · subst h
    rfl
  all_goals
    obtain ⟨_, -, rfl⟩ := h
    rfl

theorem writes_unique {files files' : π → Option β} {ws ws' : List (π × Option β)}
    (h : e.writes files = some ws) (h' : e.writes files' = some ws')
    (hfiles : e.rewrites = true → files e.path = files' e.path) : ws = ws' := by
  cases e with
  | add path content => exact some.inj (h.symm.trans h')
  | delete path =>
    obtain ⟨_, -, rfl⟩ := map_eq_some_iff.1 h
    obtain ⟨_, -, rfl⟩ := map_eq_some_iff.1 h'
    rfl
  | update path | move path =>
    have hsame : files path = files' path := hfiles rfl
    rw [writes, hsame] at h
    exact some.inj (h.symm.trans h')

end Edit

section Apply

variable [DecidableEq π]

def writeAll (files : π → Option β) (ws : List (π × Option β)) : π → Option β :=
  ws.foldl (fun files w => Function.update files w.1 w.2) files

theorem writeAll_of_not_mem {ws : List (π × Option β)} {q : π} (h : q ∉ ws.map Prod.fst)
    (files : π → Option β) : writeAll files ws q = files q := by
  induction ws generalizing files with
  | nil => rfl
  | cons w ws ih =>
    rw [map_cons, mem_cons, not_or] at h
    exact (ih h.2 _).trans (update_of_ne h.1 _ _)

theorem writeAll_of_mem {ws : List (π × Option β)} (hnodup : (ws.map Prod.fst).Nodup)
    {w : π × Option β} (h : w ∈ ws) (files : π → Option β) : writeAll files ws w.1 = w.2 := by
  induction ws generalizing files with
  | nil => cases h
  | cons v ws ih =>
    rw [map_cons, nodup_cons] at hnodup
    rcases mem_cons.1 h with rfl | h
    · exact (writeAll_of_not_mem hnodup.1 _).trans (update_self _ _ _)
    · exact ih hnodup.2 h _

def Edit.apply (e : Edit π β) (files : π → Option β) : Option (π → Option β) :=
  (e.writes files).map (writeAll files)

variable {files files' : π → Option β}

theorem Edit.apply_of_not_mem {e : Edit π β}
    (h : e.apply files = some files') {q : π} (hq : q ∉ e.touched) : files' q = files q := by
  obtain ⟨ws, hws, rfl⟩ := map_eq_some_iff.1 h
  rw [← Edit.map_fst_writes hws] at hq
  exact writeAll_of_not_mem hq files

def applyAll : List (Edit π β) → (π → Option β) → Option (π → Option β)
  | [], files => some files
  | e :: rest, files => (e.apply files).bind (applyAll rest)

theorem applyAll_append (a b : List (Edit π β)) (files : π → Option β) :
    applyAll (a ++ b) files = (applyAll a files).bind (applyAll b) := by
  induction a generalizing files with
  | nil => rfl
  | cons e a ih =>
    rw [cons_append, applyAll, applyAll, bind_assoc]
    congr 1
    funext s
    exact ih s

theorem applyAll_split {before after : List (Edit π β)} {e : Edit π β}
    (h : applyAll (before ++ e :: after) files = some files') :
    ∃ s s', applyAll before files = some s ∧ e.apply s = some s' ∧
      applyAll after s' = some files' := by
  rw [applyAll_append, bind_eq_some_iff] at h
  obtain ⟨s, hs, h⟩ := h
  obtain ⟨s', hs', h⟩ := bind_eq_some_iff.1 h
  exact ⟨s, s', hs, hs', h⟩

theorem applyAll_of_not_mem {edits : List (Edit π β)}
    (h : applyAll edits files = some files') {q : π} (hq : ∀ e ∈ edits, q ∉ e.touched) :
    files' q = files q := by
  induction edits generalizing files with
  | nil => rw [← some.inj h]
  | cons e rest ih =>
    obtain ⟨s, hs, h⟩ := bind_eq_some_iff.1 h
    rw [ih h fun b hb => hq b (mem_cons_of_mem _ hb)]
    exact Edit.apply_of_not_mem hs (hq e mem_cons_self)

end Apply

section Shown

variable [DecidableEq π]

def shown : List (Edit π β) → List (Edit π β)
  | [] => []
  | e :: rest => if e.path ∈ rest.map Edit.path then shown rest else e :: shown rest

theorem mem_shown_iff {edits : List (Edit π β)} {e : Edit π β} :
    e ∈ shown edits ↔ ∃ before after, edits = before ++ e :: after ∧
      e.path ∉ after.map Edit.path := by
  induction edits with
  | nil => simp [shown]
  | cons x rest ih =>
    constructor
    · intro h
      rw [shown] at h
      split at h
      · obtain ⟨before, after, rfl, hpath⟩ := ih.1 h
        exact ⟨x :: before, after, rfl, hpath⟩
      · rename_i hx
        rcases mem_cons.1 h with rfl | h
        · exact ⟨[], rest, rfl, hx⟩
        · obtain ⟨before, after, rfl, hpath⟩ := ih.1 h
          exact ⟨x :: before, after, rfl, hpath⟩
    · rintro ⟨before, after, hsplit, hpath⟩
      rw [shown]
      cases before with
      | nil =>
        obtain ⟨rfl, rfl⟩ := cons.inj hsplit
        rw [if_neg hpath]
        exact mem_cons_self
      | cons y before =>
        obtain ⟨rfl, hrest⟩ := cons.inj hsplit
        have hmem : e ∈ shown rest := ih.2 ⟨before, after, hrest, hpath⟩
        split
        · exact hmem
        · exact mem_cons_of_mem _ hmem

omit [DecidableEq π] in
theorem exists_last_touching {edits : List (Edit π β)} {q : π}
    (h : ∃ e ∈ edits, q ∈ e.touched) :
    ∃ before e after, edits = before ++ e :: after ∧ q ∈ e.touched ∧
      ∀ b ∈ after, q ∉ b.touched := by
  induction edits with
  | nil =>
    obtain ⟨e, he, -⟩ := h
    cases he
  | cons x rest ih =>
    by_cases hrest : ∃ e ∈ rest, q ∈ e.touched
    · obtain ⟨before, e, after, rfl, he, hafter⟩ := ih hrest
      exact ⟨x :: before, e, after, rfl, he, hafter⟩
    · have hrest' : ∀ b ∈ rest, q ∉ b.touched := fun b hb hq => hrest ⟨b, hb, hq⟩
      obtain ⟨e, he, hq⟩ := h
      rcases mem_cons.1 he with rfl | he
      · exact ⟨[], e, rest, rfl, hq, hrest'⟩
      · exact absurd hq (hrest' e he)

theorem exists_shown_path {edits : List (Edit π β)} {p : π} (h : p ∈ edits.map Edit.path) :
    ∃ e ∈ shown edits, e.path = p := by
  induction edits with
  | nil => cases h
  | cons x rest ih =>
    rw [shown]
    by_cases hrest : p ∈ rest.map Edit.path
    · obtain ⟨e, he, hp⟩ := ih hrest
      split
      · exact ⟨e, he, hp⟩
      · exact ⟨e, mem_cons_of_mem _ he, hp⟩
    · have hx : x.path = p := by
        rcases mem_cons.1 h with hp | hp
        · exact hp.symm
        · exact absurd hp hrest
      rw [if_neg (hx ▸ hrest)]
      exact ⟨x, mem_cons_self, hx⟩

/-- The final state holds what the shown edits write when they find the first state, and is
the first state elsewhere. -/
structure Kept (edits : List (Edit π β)) (files files' : π → Option β) : Prop where
  shown : ∀ e ∈ shown edits, ∀ ws, e.writes files = some ws → ∀ w ∈ ws, files' w.1 = w.2
  rest : ∀ q, (∀ e ∈ Edits.shown edits, q ∉ e.touched) → files' q = files q

end Shown

/-- The paths of an edit fit between the earlier and the later edits. An edit that a later
one of its path hides moves nothing to a path that is left alone afterwards. One that is
shown is not touched again, finds the content of its path as it was at first, and does not
move a path onto itself. -/
def Fits (before : List (Edit π β)) (e : Edit π β) (after : List (Edit π β)) : Prop :=
  (e.path ∈ after.map Edit.path → ∀ d ∈ e.dest, ∃ b ∈ after, d ∈ b.touched) ∧
    (e.path ∉ after.map Edit.path →
      (∀ b ∈ after, ∀ q ∈ e.touched, q ∉ b.touched) ∧
        (e.rewrites = true → ∀ b ∈ before, e.path ∉ b.touched) ∧ e.dest ≠ some e.path)

def Compatible (edits : List (Edit π β)) : Prop :=
  ∀ before e after, edits = before ++ e :: after → Fits before e after

theorem Edit.nodup_touched {e : Edit π β} (h : e.dest ≠ some e.path) : e.touched.Nodup := by
  rw [touched]
  cases hd : e.dest with
  | none => simp
  | some d =>
    have hne : d ≠ e.path := fun hd' => h (by rw [hd, hd'])
    simpa using hne

section Agreement

variable [DecidableEq π] {edits : List (Edit π β)} {files files' : π → Option β}

theorem kept_of_compatible (hcompatible : Compatible edits)
    (hrun : applyAll edits files = some files') :
    Kept edits files files' where
  shown := by
    intro e he ws hws w hw
    obtain ⟨before, after, rfl, hpath⟩ := mem_shown_iff.1 he
    obtain ⟨hafter, hbefore, hself⟩ := (hcompatible before e after rfl).2 hpath
    obtain ⟨s, s', hs, happly, hrest⟩ := applyAll_split hrun
    obtain ⟨ws', hws', rfl⟩ := map_eq_some_iff.1 happly
    have hfound : e.rewrites = true → files e.path = s e.path := fun hrewrites =>
      (applyAll_of_not_mem hs (hbefore hrewrites)).symm
    rw [← Edit.writes_unique hws hws' hfound] at hrest
    have hmem : w.1 ∈ e.touched := by
      rw [← Edit.map_fst_writes hws]
      exact mem_map_of_mem hw
    rw [applyAll_of_not_mem hrest fun b hb => hafter b hb w.1 hmem]
    refine writeAll_of_mem ?_ hw s
    rw [Edit.map_fst_writes hws]
    exact Edit.nodup_touched hself
  rest := by
    intro q hq
    refine applyAll_of_not_mem hrun fun e he hmem => ?_
    -- the last edit that touches the path is shown
    obtain ⟨before, e, after, rfl, hmem, hlast⟩ := exists_last_touching ⟨e, he, hmem⟩
    by_cases hpath : e.path ∈ after.map Edit.path
    · obtain ⟨b, hb, hsame⟩ := mem_map.1 hpath
      rcases Edit.mem_touched_iff.1 hmem with hdest | rfl
      · obtain ⟨c, hc, hcq⟩ := (hcompatible before e after rfl).1 hpath q hdest
        exact hlast c hc hcq
      · exact hlast b hb (hsame ▸ b.path_mem_touched)
    · exact hq e (mem_shown_iff.2 ⟨before, after, rfl, hpath⟩) hmem

end Agreement

/-! ## The converse

In place of contents come lists of numbers: an edit puts its own number at the end of what
it finds. So a content tells which edits have made it. -/

namespace Edit

/-- The edit of these paths that puts number `n` at the end. -/
def numbered (n : ℕ) : Edit π β → Edit π (List ℕ)
  | add path _ => add path [n]
  | delete path => delete path
  | update path _ => update path fun l => some (l ++ [n])
  | move path dest _ => move path dest fun l => some (l ++ [n])

variable (n : ℕ)

@[simp] theorem path_numbered (e : Edit π β) : (e.numbered n).path = e.path := by
  cases e <;> rfl

@[simp] theorem dest_numbered (e : Edit π β) : (e.numbered n).dest = e.dest := by
  cases e <;> rfl

@[simp] theorem rewrites_numbered (e : Edit π β) : (e.numbered n).rewrites = e.rewrites := by
  cases e <;> rfl

@[simp] theorem touched_numbered (e : Edit π β) : (e.numbered n).touched = e.touched := by
  simp [touched]

/-- What a numbered edit leaves where it has touched: nothing at its own path, or a content
that ends with its number. -/
theorem numbered_apply [DecidableEq π] {n : ℕ} {e : Edit π β} {t t' : π → Option (List ℕ)}
    (h : (e.numbered n).apply t = some t') {q : π} (hq : q ∈ e.touched) :
    (t' q = none ∧ q = e.path) ∨ ∃ l, t' q = some (l ++ [n]) := by
  obtain ⟨ws, hws, rfl⟩ := map_eq_some_iff.1 h
  cases e with
  | add path content =>
    have hqp : q = path := by simpa [touched, Edit.path, Edit.dest] using hq
    obtain rfl : [(path, some [n])] = ws := by simpa [numbered, writes] using hws
    exact .inr ⟨[], by simp [writeAll, hqp]⟩
  | delete path =>
    have hqp : q = path := by simpa [touched, Edit.path, Edit.dest] using hq
    obtain ⟨_, -, rfl⟩ := map_eq_some_iff.1 hws
    exact .inl ⟨by simp [writeAll, hqp], hqp⟩
  | update path f =>
    have hqp : q = path := by simpa [touched, Edit.path, Edit.dest] using hq
    obtain ⟨new, hnew, rfl⟩ := map_eq_some_iff.1 hws
    obtain ⟨l, -, hl⟩ := bind_eq_some_iff.1 hnew
    exact .inr ⟨l, by simp [writeAll, hqp, ← some.inj hl]⟩
  | move path dest f =>
    obtain ⟨new, hnew, rfl⟩ := map_eq_some_iff.1 hws
    obtain ⟨l, -, hl⟩ := bind_eq_some_iff.1 hnew
    by_cases hqp : q = path
    · exact .inl ⟨by simp [writeAll, hqp], hqp⟩
    · have hqd : q = dest := by simpa [touched, Edit.path, Edit.dest, hqp] using hq
      subst hqd
      exact .inr ⟨l, by simp [writeAll, hqp, ← some.inj hl]⟩

theorem numbered_writes_empty (e : Edit π β) :
    ∃ ws, (e.numbered n).writes (fun _ => some []) = some ws ∧
      ∀ q ∈ e.touched, ∃ w ∈ ws, w.1 = q ∧ (w.2 = none ∧ q = e.path ∨ w.2 = some [n]) := by
  cases e with
  | add | delete | update | move => exact ⟨_, rfl, by simp [touched, Edit.path, Edit.dest]⟩

end Edit

/-- The edits with their numbers, from `n` on. -/
def numberedFrom : ℕ → List (Edit π β) → List (Edit π (List ℕ))
  | _, [] => []
  | n, e :: rest => e.numbered n :: numberedFrom (n + 1) rest

variable (n : ℕ)

theorem numberedFrom_append (a b : List (Edit π β)) :
    numberedFrom n (a ++ b) = numberedFrom n a ++ numberedFrom (n + a.length) b := by
  induction a generalizing n with
  | nil => rfl
  | cons e a ih =>
    rw [cons_append, numberedFrom, numberedFrom, ih, cons_append, length_cons,
      Nat.add_right_comm, Nat.add_assoc]

theorem map_path_numberedFrom (edits : List (Edit π β)) :
    (numberedFrom n edits).map Edit.path = edits.map Edit.path := by
  induction edits generalizing n with
  | nil => rfl
  | cons e rest ih => simp [numberedFrom, ih]

variable {edits : List (Edit π β)}

theorem exists_of_mem_numberedFrom {n : ℕ} {e : Edit π (List ℕ)}
    {before after : List (Edit π (List ℕ))} (h : numberedFrom n edits = before ++ e :: after) :
    ∃ before' e' after', edits = before' ++ e' :: after' ∧ e = e'.numbered (n + before'.length) ∧
      before = numberedFrom n before' ∧ after = numberedFrom (n + before'.length + 1) after' := by
  induction before generalizing n edits with
  | nil =>
    cases edits with
    | nil => cases h
    | cons x rest =>
      obtain ⟨rfl, rfl⟩ := cons.inj h
      exact ⟨[], x, rest, rfl, rfl, rfl, rfl⟩
  | cons y before ih =>
    cases edits with
    | nil => cases h
    | cons x rest =>
      obtain ⟨rfl, hrest⟩ := cons.inj h
      obtain ⟨before', e', after', rfl, rfl, rfl, rfl⟩ := ih hrest
      have hn : n + 1 + before'.length = n + (x :: before').length := by
        rw [length_cons]
        omega
      rw [hn]
      exact ⟨x :: before', e', after', rfl, rfl, rfl, rfl⟩

theorem map_touched_numberedFrom (edits : List (Edit π β)) :
    (numberedFrom n edits).map Edit.touched = edits.map Edit.touched := by
  induction edits generalizing n with
  | nil => rfl
  | cons e rest ih => simp [numberedFrom, ih]

theorem exists_touched_numberedFrom (edits : List (Edit π β)) (q : π) :
    (∃ e ∈ numberedFrom n edits, q ∈ e.touched) ↔ ∃ e ∈ edits, q ∈ e.touched := by
  have h := congrArg (fun l => ∃ t ∈ l, q ∈ t) (map_touched_numberedFrom n edits)
  simpa using h

theorem forall_mem_numberedFrom {n : ℕ} {q : π} :
    (∀ e ∈ numberedFrom n edits, q ∉ e.touched) ↔ ∀ e ∈ edits, q ∉ e.touched := by
  have h := not_congr (exists_touched_numberedFrom n edits q)
  simpa using h

section Converse

variable [DecidableEq π] {before after : List (Edit π β)} {e : Edit π β} {t' : π → Option (List ℕ)}

section

variable (hrun : applyAll (numberedFrom 0 (before ++ e :: after)) (fun _ => some []) = some t')
include hrun

theorem numbered_split :
    ∃ s s', applyAll (numberedFrom 0 before) (fun _ => some []) = some s ∧
      (e.numbered before.length).apply s = some s' ∧
      applyAll (numberedFrom (before.length + 1) after) s' = some t' := by
  rw [numberedFrom_append, Nat.zero_add] at hrun
  exact applyAll_split hrun

theorem numbered_last {q : π}
    (hq : q ∈ e.touched) (hafter : ∀ b ∈ after, q ∉ b.touched) :
    (t' q = none ∧ q = e.path) ∨ ∃ l, t' q = some (l ++ [before.length]) := by
  obtain ⟨s, s', -, happly, hrest⟩ := numbered_split hrun
  rw [applyAll_of_not_mem hrest (forall_mem_numberedFrom.2 hafter)]
  exact Edit.numbered_apply happly hq

end

theorem numbered_shown (hpath : e.path ∉ after.map Edit.path) :
    e.numbered before.length ∈ shown (numberedFrom 0 (before ++ e :: after)) := by
  refine mem_shown_iff.2 ⟨numberedFrom 0 before, numberedFrom (before.length + 1) after, ?_, ?_⟩
  · rw [numberedFrom_append, Nat.zero_add]
    rfl
  · rwa [map_path_numberedFrom, Edit.path_numbered]

theorem numbered_promise
    (hkept : Kept (numberedFrom 0 (before ++ e :: after)) (fun _ => some []) t')
    (hpath : e.path ∉ after.map Edit.path) {q : π} (hq : q ∈ e.touched) :
    (t' q = none ∧ q = e.path) ∨ t' q = some [before.length] := by
  obtain ⟨ws, hws, hpromise⟩ := e.numbered_writes_empty before.length
  obtain ⟨w, hw, rfl, hvalue⟩ := hpromise q hq
  rw [hkept.shown _ (numbered_shown hpath) ws hws w hw]
  exact hvalue

theorem numbered_touched {s : π → Option (List ℕ)}
    (hrun : applyAll (numberedFrom 0 before) (fun _ => some []) = some s) {q : π}
    (hq : ∃ b ∈ before, q ∈ b.touched) : s q ≠ some [] := by
  obtain ⟨before', e, after, rfl, hmem, hlast⟩ := exists_last_touching hq
  rcases numbered_last hrun hmem hlast with ⟨hnone, -⟩ | ⟨l, hl⟩
  · simp [hnone]
  · simp [hl]

theorem Edit.numbered_rewrites {n : ℕ} {s s' : π → Option (List ℕ)} (hrewrites : e.rewrites = true)
    (hself : e.dest ≠ some e.path) (happly : (e.numbered n).apply s = some s') :
    ∃ q ∈ e.touched, ∃ l, s e.path = some l ∧ s' q = some (l ++ [n]) := by
  obtain ⟨ws, hws, rfl⟩ := map_eq_some_iff.1 happly
  cases e with
  | add | delete => cases hrewrites
  | update path f =>
    obtain ⟨new, hnew, rfl⟩ := map_eq_some_iff.1 hws
    obtain ⟨l, hl, hlast⟩ := bind_eq_some_iff.1 hnew
    refine ⟨path, Edit.path_mem_touched _, l, hl, ?_⟩
    simp [writeAll, ← some.inj hlast]
  | move path dest f =>
    obtain ⟨new, hnew, rfl⟩ := map_eq_some_iff.1 hws
    obtain ⟨l, hl, hlast⟩ := bind_eq_some_iff.1 hnew
    have hne : dest ≠ path := fun hd => hself (congrArg some hd)
    refine ⟨dest, Edit.dest_mem_touched rfl, l, hl, ?_⟩
    simp [writeAll, hne, ← some.inj hlast]

section

variable (hrun : applyAll (numberedFrom 0 (before ++ e :: after)) (fun _ => some []) = some t')
include hrun

theorem numbered_hidden (hkept : Kept (numberedFrom 0 (before ++ e :: after)) (fun _ => some []) t')
    (hpath : e.path ∈ after.map Edit.path) {d : π} (hd : d ∈ e.dest) :
    ∃ b ∈ after, d ∈ b.touched := by
  by_contra hnone
  have hafter : ∀ b ∈ after, d ∉ b.touched := fun b hb hmem => hnone ⟨b, hb, hmem⟩
  have hlast := numbered_last hrun (Edit.dest_mem_touched hd) hafter
  obtain ⟨b, hb, hsame⟩ := mem_map.1 hpath
  have hne : d ≠ e.path := fun h => hafter b hb (h ▸ hsame ▸ b.path_mem_touched)
  obtain ⟨l, hl⟩ : ∃ l, t' d = some (l ++ [before.length]) := by
    rcases hlast with ⟨-, h⟩ | h
    · exact absurd h hne
    · exact h
  by_cases hshown : ∃ x ∈ shown (numberedFrom 0 (before ++ e :: after)), d ∈ x.touched
  · obtain ⟨x, hx, hmem⟩ := hshown
    obtain ⟨before', after', hsplit, hlater⟩ := mem_shown_iff.1 hx
    obtain ⟨before₀, x₀, after₀, hsplit₀, rfl, rfl, rfl⟩ := exists_of_mem_numberedFrom hsplit
    rw [map_path_numberedFrom, Edit.path_numbered] at hlater
    rw [Edit.touched_numbered] at hmem
    rw [hsplit₀] at hkept
    rcases numbered_promise hkept hlater hmem with ⟨hnone, -⟩ | hsome
    · rw [hl] at hnone
      cases hnone
    · -- the two edits have the same number, so they are the same
      rw [hl, some.injEq] at hsome
      have hlength : before.length = before₀.length := by
        have hend := congrArg getLast? hsome
        simpa using hend
      obtain ⟨rfl, hrest⟩ := append_inj hsplit₀ hlength
      obtain ⟨rfl, rfl⟩ := cons.inj hrest
      exact hlater hpath
  · have hsame := hkept.rest d fun x hx hmem => hshown ⟨x, hx, hmem⟩
    rw [hl] at hsame
    simp at hsame

theorem numbered_alone (hkept : Kept (numberedFrom 0 (before ++ e :: after)) (fun _ => some []) t')
    (hpath : e.path ∉ after.map Edit.path) {q : π} (hq : q ∈ e.touched) :
    ∀ b ∈ after, q ∉ b.touched := by
  intro b hb hmem
  obtain ⟨mid, c, rest, rfl, hc, hlast⟩ := exists_last_touching ⟨b, hb, hmem⟩
  have hpromise := numbered_promise hkept hpath hq
  have hsplit : before ++ e :: (mid ++ c :: rest) = (before ++ e :: mid) ++ c :: rest := by simp
  rw [hsplit] at hrun
  rcases numbered_last hrun hc hlast with ⟨hnone, hcpath⟩ | ⟨l, hl⟩
  · rcases hpromise with ⟨-, hepath⟩ | hsome
    · refine hpath ?_
      rw [← hepath, hcpath]
      exact mem_map_of_mem (mem_append_right _ mem_cons_self)
    · rw [hnone] at hsome
      cases hsome
  · rcases hpromise with ⟨hnone, -⟩ | hsome
    · rw [hl] at hnone
      cases hnone
    · rw [hl, some.injEq] at hsome
      have hend := congrArg getLast? hsome
      simp at hend

end

variable {edits : List (Edit π β)}

theorem compatible_of_kept
    (hrun : applyAll (numberedFrom 0 edits) (fun _ => some []) = some t')
    (hkept : Kept (numberedFrom 0 edits) (fun _ => some []) t') : Compatible edits := by
  rintro before e after rfl
  refine ⟨fun hpath d hd => numbered_hidden hrun hkept hpath hd, fun hpath => ?_⟩
  have halone : ∀ b ∈ after, ∀ q ∈ e.touched, q ∉ b.touched := fun b hb q hq =>
    numbered_alone hrun hkept hpath hq b hb
  have hself : e.dest ≠ some e.path := by
    intro hdest
    cases e with
    | add | delete | update => cases hdest
    | move path dest f =>
      have hsame : dest = path := some.inj hdest
      subst hsame
      have hwrites := hkept.shown _ (numbered_shown hpath) _ rfl
      have hsome := hwrites (dest, some [before.length]) (by simp)
      have hnone := hwrites (dest, none) (by simp)
      rw [hsome] at hnone
      cases hnone
  refine ⟨halone, fun hrewrites b hb hmem => ?_, hself⟩
  obtain ⟨s, s', hs, happly, hrest⟩ := numbered_split hrun
  obtain ⟨q, hq, l, hl, hnew⟩ := Edit.numbered_rewrites hrewrites hself happly
  rw [← applyAll_of_not_mem hrest (forall_mem_numberedFrom.2 fun b hb => halone b hb q hq)] at hnew
  rcases numbered_promise hkept hpath hq with ⟨hnone, -⟩ | hsome
  · rw [hnew] at hnone
    cases hnone
  · rw [hnew] at hsome
    have hempty : l = [] := by simpa using hsome
    exact numbered_touched hs ⟨b, hb, hmem⟩ (hempty ▸ hl)

end Converse

theorem compatible_numberedFrom {n : ℕ} : Compatible (numberedFrom n edits) ↔ Compatible edits := by
  have hfits (before after : List (Edit π β)) (e : Edit π β) :
      Fits (numberedFrom n before) (e.numbered (n + before.length))
          (numberedFrom (n + before.length + 1) after) ↔ Fits before e after := by
    have hafter := exists_touched_numberedFrom (n + before.length + 1) after
    have hbefore : (∀ b ∈ numberedFrom n before, e.path ∉ b.touched) ↔
        ∀ b ∈ before, e.path ∉ b.touched :=
      forall_mem_numberedFrom
    have halone :
        (∀ b ∈ numberedFrom (n + before.length + 1) after, ∀ q ∈ e.touched, q ∉ b.touched) ↔
        ∀ b ∈ after, ∀ q ∈ e.touched, q ∉ b.touched := by
      constructor
      · exact fun h b hb q hq => forall_mem_numberedFrom.1 (fun b hb => h b hb q hq) b hb
      · exact fun h b hb q hq => forall_mem_numberedFrom.2 (fun b hb => h b hb q hq) b hb
    simp [Fits, map_path_numberedFrom, hafter, hbefore, halone]
  constructor
  · intro h before e after hsplit
    refine (hfits before after e).1 (h _ _ _ ?_)
    rw [hsplit, numberedFrom_append]
    rfl
  · intro h before e after hsplit
    obtain ⟨before', e', after', rfl, rfl, rfl, rfl⟩ := exists_of_mem_numberedFrom hsplit
    exact (hfits before' after' e').2 (h _ _ _ rfl)

section Feasible

variable [DecidableEq π]

/-- The edits can be applied when every path holds something: no edit looks for a content
that an earlier one has taken away. -/
def Feasible (edits : List (Edit π β)) : Prop :=
  (applyAll (numberedFrom 0 edits) fun _ => some []).isSome = true

theorem writeAll_isSome {ws : List (π × Option β)} {ws' : List (π × Option γ)}
    (hws : List.Forall₂ (fun w w' => w.1 = w'.1 ∧ w.2.isSome = w'.2.isSome) ws ws')
    {files : π → Option β} {t : π → Option γ}
    (ht : ∀ q, (files q).isSome = true → (t q).isSome = true) (q : π) :
    (writeAll files ws q).isSome = true → (writeAll t ws' q).isSome = true := by
  induction hws generalizing files t with
  | nil => exact ht q
  | @cons w w' _ _ hw _ ih =>
    refine ih fun r => ?_
    dsimp only
    rw [← hw.1]
    by_cases hr : r = w.1
    · rw [hr, update_self, update_self, hw.2]
      exact id
    · rw [update_of_ne hr, update_of_ne hr]
      exact ht r

theorem Edit.numbered_apply_isSome {e : Edit π β} {files files' : π → Option β}
    {t : π → Option (List ℕ)} (happly : e.apply files = some files')
    (ht : ∀ q, (files q).isSome = true → (t q).isSome = true) :
    ∃ t', (e.numbered n).apply t = some t' ∧ ∀ q, (files' q).isSome = true →
      (t' q).isSome = true := by
  obtain ⟨ws, hws, rfl⟩ := map_eq_some_iff.1 happly
  suffices h : ∃ ws', (e.numbered n).writes t = some ws' ∧
      Forall₂ (fun w w' => w.1 = w'.1 ∧ w.2.isSome = w'.2.isSome) ws ws' by
    obtain ⟨ws', hws', hshape⟩ := h
    exact ⟨_, by rw [apply, hws']; rfl, writeAll_isSome hshape ht⟩
  have hfound {path : π} {b : β} (hb : files path = some b) : ∃ l, t path = some l :=
    isSome_iff_exists.1 (ht path (by rw [hb]; rfl))
  cases e with
  | add path content =>
    cases hws
    exact ⟨_, rfl, by simp⟩
  | delete path =>
    obtain ⟨b, hb, rfl⟩ := map_eq_some_iff.1 hws
    obtain ⟨l, hl⟩ := hfound hb
    exact ⟨[(path, none)], by simp [numbered, writes, hl], by simp⟩
  | update path f =>
    obtain ⟨new, hnew, rfl⟩ := map_eq_some_iff.1 hws
    obtain ⟨b, hb, -⟩ := bind_eq_some_iff.1 hnew
    obtain ⟨l, hl⟩ := hfound hb
    exact ⟨[(path, some (l ++ [n]))], by simp [numbered, writes, hl], by simp⟩
  | move path dest f =>
    obtain ⟨new, hnew, rfl⟩ := map_eq_some_iff.1 hws
    obtain ⟨b, hb, -⟩ := bind_eq_some_iff.1 hnew
    obtain ⟨l, hl⟩ := hfound hb
    exact ⟨[(dest, some (l ++ [n])), (path, none)], by simp [numbered, writes, hl], by simp⟩

theorem feasible_of_applyAll {edits : List (Edit π β)} {files files' : π → Option β}
    (h : applyAll edits files = some files') : Feasible edits := by
  have hrun (n : ℕ) (t : π → Option (List ℕ))
      (ht : ∀ q, (files q).isSome = true → (t q).isSome = true) :
      (applyAll (numberedFrom n edits) t).isSome = true := by
    induction edits generalizing files n t with
    | nil => rfl
    | cons e rest ih =>
      obtain ⟨s, hs, hrest⟩ := bind_eq_some_iff.1 h
      obtain ⟨t', ht', hsome⟩ := Edit.numbered_apply_isSome n hs ht
      rw [numberedFrom, applyAll, ht']
      exact ih hrest (n + 1) t' hsome
  exact hrun 0 _ fun _ _ => rfl

/-- Each destination that is reached is a path of a shown edit. -/
def Covered (edits : List (Edit π β)) : Prop :=
  ∀ before e after, edits = before ++ e :: after → Feasible (before ++ [e]) →
    ∀ q ∈ e.dest, ∃ x ∈ shown edits, q ∈ x.touched

omit [DecidableEq π] in
theorem numberedFrom_numberedFrom (n m : ℕ) (edits : List (Edit π β)) :
    numberedFrom n (numberedFrom m edits) = numberedFrom n edits := by
  have hone (n m : ℕ) (e : Edit π β) : (e.numbered m).numbered n = e.numbered n := by
    cases e <;> rfl
  induction edits generalizing n m with
  | nil => rfl
  | cons e rest ih => rw [numberedFrom, numberedFrom, hone, ih, numberedFrom]

theorem exists_shown_numberedFrom (edits : List (Edit π β)) (q : π) :
    (∃ x ∈ shown (numberedFrom n edits), q ∈ x.touched) ↔ ∃ x ∈ shown edits, q ∈ x.touched := by
  induction edits generalizing n with
  | nil => simp [numberedFrom, shown]
  | cons e rest ih =>
    rw [numberedFrom, shown, shown, map_path_numberedFrom, Edit.path_numbered]
    split
    · exact ih (n + 1)
    · simp [ih (n + 1)]

theorem covered_numberedFrom {n : ℕ} {edits : List (Edit π β)} :
    Covered (numberedFrom n edits) ↔ Covered edits := by
  have hfeasible (before : List (Edit π β)) (e : Edit π β) :
      Feasible (numberedFrom n before ++ [e.numbered (n + before.length)]) ↔
        Feasible (before ++ [e]) := by
    have hstarts : numberedFrom n before ++ [e.numbered (n + before.length)] =
        numberedFrom n (before ++ [e]) := by
      rw [numberedFrom_append]
      rfl
    rw [hstarts, Feasible, numberedFrom_numberedFrom, Feasible]
  constructor
  · intro h before e after hsplit hreached q hq
    refine (exists_shown_numberedFrom n edits q).1 (h _ (e.numbered (n + before.length))
      (numberedFrom (n + before.length + 1) after) ?_ ((hfeasible before e).2 hreached) q ?_)
    · rw [hsplit, numberedFrom_append]
      rfl
    · rwa [Edit.dest_numbered]
  · intro h before e after hsplit hreached q hq
    obtain ⟨before', e', after', rfl, rfl, rfl, rfl⟩ := exists_of_mem_numberedFrom hsplit
    rw [Edit.dest_numbered] at hq
    exact (exists_shown_numberedFrom n _ q).2 (h _ _ _ rfl ((hfeasible before' e').1 hreached) q hq)

end Feasible

section Encoding

variable (f : β → γ)

def encoded (t : π → Option β) : π → Option γ := fun q => (t q).map f

/-- The edit does to encoded contents what the other one does to the contents. -/
structure Encodes (e' : Edit π γ) (e : Edit π β) : Prop where
  path : e'.path = e.path
  dest : e'.dest = e.dest
  writes : ∀ t, e'.writes (encoded f t) = (e.writes t).map (List.map fun w => (w.1, w.2.map f))

variable {f} {e : Edit π β} {e' : Edit π γ} {edits : List (Edit π β)} {edits' : List (Edit π γ)}
  {t t' : π → Option β}

theorem Encodes.touched (h : Encodes f e' e) : e'.touched = e.touched := by
  rw [Edit.touched, Edit.touched, h.path, h.dest]

variable (h : List.Forall₂ (Encodes f) edits' edits)

include h in
theorem encodes_paths :
    edits'.map Edit.path = edits.map Edit.path := by
  induction h with
  | nil => rfl
  | cons he _ ih => rw [map_cons, map_cons, he.path, ih]

variable [DecidableEq π]

theorem writeAll_encoded (ws : List (π × Option β)) :
    writeAll (encoded f t) (ws.map fun w => (w.1, w.2.map f)) = encoded f (writeAll t ws) := by
  induction ws generalizing t with
  | nil => rfl
  | cons w ws ih =>
    have hone : update (encoded f t) w.1 (w.2.map f) = encoded f (update t w.1 w.2) := by
      funext q
      by_cases hq : q = w.1 <;> simp [encoded, hq]
    rw [map_cons, writeAll, foldl_cons, hone]
    exact ih

include h in
theorem applyAll_encoded (t : π → Option β) :
    applyAll edits' (encoded f t) = (applyAll edits t).map (encoded f) := by
  induction h generalizing t with
  | nil => rfl
  | @cons e' e rest' rest he _ ih =>
    have hone : e'.apply (encoded f t) = (e.apply t).map (encoded f) := by
      rw [Edit.apply, Edit.apply, he.writes, Option.map_map, Option.map_map]
      congr 1
      funext ws
      exact writeAll_encoded ws
    rw [applyAll, applyAll, hone]
    cases e.apply t with
    | none => rfl
    | some s => exact ih s

include h in
theorem shown_encodes :
    List.Forall₂ (Encodes f) (shown edits') (shown edits) := by
  induction h with
  | nil => exact .nil
  | cons he htail ih =>
    rw [shown, shown, he.path, encodes_paths htail]
    split
    · exact ih
    · exact .cons he ih

include h in
omit [DecidableEq π] in
theorem exists_encodes :
    (∀ e ∈ edits, ∃ e' ∈ edits', Encodes f e' e) ∧ ∀ e' ∈ edits', ∃ e ∈ edits, Encodes f e' e := by
  induction h with
  | nil => exact ⟨nofun, nofun⟩
  | cons hhead _ ih => simp_all [or_and_right, exists_or]

include h in
theorem kept_of_encoded (hf : Function.Injective f)
    (hkept : Kept edits' (encoded f t) (encoded f t')) : Kept edits t t' := by
  have hinj {a b : Option β} (hab : a.map f = b.map f) : a = b := map_injective hf hab
  constructor
  · intro e he ws hws w hw
    obtain ⟨e', he', hencodes⟩ := (exists_encodes (shown_encodes h)).1 e he
    have hws' : e'.writes (encoded f t) = some (ws.map fun w => (w.1, w.2.map f)) := by
      rw [hencodes.writes, hws]
      rfl
    exact hinj (hkept.shown e' he' _ hws' (w.1, w.2.map f) (mem_map_of_mem hw))
  · intro q hq
    refine hinj (hkept.rest q fun e' he' => ?_)
    obtain ⟨e, he, hencodes⟩ := (exists_encodes (shown_encodes h)).2 e' he'
    rw [hencodes.touched]
    exact hq e he

end Encoding

end Edits
