import OmniDoer.Library.PyJsonLex
import Mathlib.Data.List.Perm.Basic

/-! Canonical JSON text determines its value. The argument covers values built from
strings, arrays and key-sorted objects; each of their texts announces its own end,
so a text followed by anything still determines the value and what follows. -/

namespace Py

open List Json

theorem quote_append_inj {s t : String} {r r' : List Char}
    (h : quote false s ++ r = quote false t ++ r') : s = t ∧ r = r' := by
  simp only [quote, cons_append, append_assoc, cons.injEq, true_and] at h
  have hread := congrArg readString h
  rw [readString_escaped, readString_escaped] at hread
  simpa using hread

variable {α : Type*}

private theorem tailItems_append_inj {close : Char} (hclose : close ≠ ',')
    {f : α → List Char} {xs ys : List α} {r r' : List Char}
    (hf : ∀ x ∈ xs, ∀ y ∈ ys, ∀ u u', f x ++ u = f y ++ u' → x = y ∧ u = u')
    (h : (xs.map f).flatMap (fun t => ',' :: t) ++ close :: r =
      (ys.map f).flatMap (fun t => ',' :: t) ++ close :: r') :
    xs = ys ∧ r = r' := by
  induction xs generalizing ys with
  | nil =>
    cases ys with
    | nil => exact ⟨rfl, by simpa using h⟩
    | cons y ys => simp [hclose] at h
  | cons x xs ih =>
    cases ys with
    | nil => simp [Ne.symm hclose] at h
    | cons y ys =>
      simp only [map_cons, flatMap_cons, cons_append, append_assoc, cons.injEq, true_and] at h
      obtain ⟨hx, ht⟩ := hf x (by simp) y (by simp) _ _ h
      obtain ⟨hxs, hr⟩ := ih (fun a ha b hb => hf a (by simp [ha]) b (by simp [hb])) ht
      exact ⟨by rw [hx, hxs], hr⟩

/-- Texts that announce their own end keep doing so when they are joined, provided
none of them starts with the closing bracket. -/
theorem joinItems_append_inj {close : Char} (hclose : close ≠ ',') {f : α → List Char}
    {xs ys : List α} {r r' : List Char}
    (hx : ∀ x ∈ xs, ∃ c t, f x = c :: t ∧ c ≠ close)
    (hy : ∀ y ∈ ys, ∃ c t, f y = c :: t ∧ c ≠ close)
    (hf : ∀ x ∈ xs, ∀ y ∈ ys, ∀ u u', f x ++ u = f y ++ u' → x = y ∧ u = u')
    (h : joinItems close (xs.map f) ++ r = joinItems close (ys.map f) ++ r') :
    xs = ys ∧ r = r' := by
  cases xs with
  | nil =>
    cases ys with
    | nil => exact ⟨rfl, by simpa [joinItems] using h⟩
    | cons y ys =>
      obtain ⟨c, t, hc, hne⟩ := hy y (by simp)
      simp [joinItems, hc, Ne.symm hne] at h
  | cons x xs =>
    cases ys with
    | nil =>
      obtain ⟨c, t, hc, hne⟩ := hx x (by simp)
      simp [joinItems, hc, hne] at h
    | cons y ys =>
      simp only [map_cons, joinItems, append_assoc] at h
      obtain ⟨he, ht⟩ := hf x (by simp) y (by simp) _ _ h
      obtain ⟨hxs, hr⟩ := tailItems_append_inj hclose
        (fun a ha b hb => hf a (by simp [ha]) b (by simp [hb])) ht
      exact ⟨by rw [he, hxs], hr⟩

/-- Built from strings, arrays and objects whose keys are in order. -/
inductive Json.Canonical : Json → Prop where
  | str (s : String) : Canonical (.str s)
  | arr {items : List Json} (h : ∀ v ∈ items, Canonical v) : Canonical (.arr items)
  | obj {members : List (String × Json)} (hs : members.Pairwise fun a b => a.1 ≤ b.1)
      (h : ∀ m ∈ members, Canonical m.2) : Canonical (.obj members)

theorem sortKeys_eq_self {members : List (String × α)}
    (h : members.Pairwise fun a b => a.1 ≤ b.1) : sortKeys members = members :=
  h.insertionSort_eq

theorem pairwise_sortKeys (members : List (String × α)) :
    (sortKeys members).Pairwise fun a b => a.1 ≤ b.1 := by
  exact pairwise_insertionSort _ _

variable (py : Interpreter)

def Json.opening : Json → Char
  | .arr _ => '['
  | .obj _ => '\x7b'
  | _ => '"'

theorem Json.Canonical.dumpsChars_head {v : Json} (h : v.Canonical) :
    ∃ t, v.dumpsChars py false = v.opening :: t := by
  cases h with
  | str s => exact ⟨_, by rw [dumpsChars]; rfl⟩
  | arr _ => exact ⟨_, by rw [dumpsChars_arr]; rfl⟩
  | obj _ _ => exact ⟨_, by rw [dumpsChars_obj]; rfl⟩

/-- A canonical text followed by anything determines the value and what follows. -/
theorem Json.Canonical.dumpsChars_append_inj {v : Json} (hv : v.Canonical) :
    ∀ {w : Json}, w.Canonical → ∀ {r r' : List Char},
      v.dumpsChars py false ++ r = w.dumpsChars py false ++ r' → v = w ∧ r = r' := by
  induction hv with
  | str s =>
    intro w hw r r' h
    obtain ⟨t, ht⟩ := hw.dumpsChars_head py
    cases hw with
    | str t =>
      obtain ⟨hs, hr⟩ := quote_append_inj h
      exact ⟨by rw [hs], hr⟩
    | arr | obj =>
      rw [ht, dumpsChars, quote] at h
      simp [opening] at h
  | @arr items hitems ih =>
    intro w hw r r' h
    obtain ⟨t, ht⟩ := hw.dumpsChars_head py
    cases hw with
    | str | obj =>
      rw [ht, dumpsChars_arr] at h
      simp [opening] at h
    | @arr items' hitems' =>
      simp only [dumpsChars_arr, cons_append, cons.injEq, true_and] at h
      have hopen : ∀ v : Json, v.Canonical → ∃ c t, v.dumpsChars py false = c :: t ∧ c ≠ ']' := by
        intro v hv
        obtain ⟨t, ht⟩ := hv.dumpsChars_head py
        exact ⟨_, t, ht, by cases hv <;> simp [opening]⟩
      obtain ⟨he, hr⟩ := joinItems_append_inj (by decide)
        (fun x hx => hopen x (hitems x hx)) (fun y hy => hopen y (hitems' y hy))
        (fun x hx y hy u u' => ih x hx (hitems' y hy)) h
      exact ⟨by rw [he], hr⟩
  | @obj members hs hmembers ih =>
    intro w hw r r' h
    obtain ⟨t, ht⟩ := hw.dumpsChars_head py
    cases hw with
    | str | arr =>
      rw [ht, dumpsChars_obj] at h
      simp [opening] at h
    | @obj members' hs' hmembers' =>
      simp only [dumpsChars_obj, cons_append, cons.injEq, true_and,
        sortKeys_eq_self hs, sortKeys_eq_self hs'] at h
      have hopen : ∀ m : String × Json,
          ∃ c t, memberText false (m.1, m.2.dumpsChars py false) = c :: t ∧ c ≠ '\x7d' :=
        fun m => ⟨'"', _, rfl, by decide⟩
      have hmember : ∀ x ∈ members, ∀ y ∈ members', ∀ u u',
          memberText false (x.1, x.2.dumpsChars py false) ++ u =
            memberText false (y.1, y.2.dumpsChars py false) ++ u' → x = y ∧ u = u' := by
        intro x hx y hy u u' hxy
        simp only [memberText, append_assoc] at hxy
        obtain ⟨hk, hrest⟩ := quote_append_inj hxy
        obtain ⟨hval, hu⟩ := ih x hx (hmembers' y hy) (cons.inj hrest).2
        exact ⟨Prod.ext hk hval, hu⟩
      obtain ⟨he, hr⟩ := joinItems_append_inj (by decide) (fun x _ => hopen x)
        (fun y _ => hopen y) hmember h
      exact ⟨by rw [he], hr⟩

/-- Objects with canonical values have the same text only if they have the same
members, in whatever order they were inserted. -/
theorem dumps_obj_perm {members members' : List (String × Json)}
    (h : ∀ m ∈ members, m.2.Canonical) (h' : ∀ m ∈ members', m.2.Canonical)
    (he : (Json.obj members).dumps py false = (Json.obj members').dumps py false) :
    members.Perm members' := by
  have hsort : ∀ ms : List (String × Json), (∀ m ∈ ms, m.2.Canonical) →
      (obj (sortKeys ms)).Canonical := fun ms hms =>
    .obj (pairwise_sortKeys ms) fun m hm => hms m ((sortKeys_perm ms).mem_iff.mp hm)
  have hdump : ∀ ms : List (String × Json),
      (obj ms).dumpsChars py false = (obj (sortKeys ms)).dumpsChars py false := by
    intro ms
    rw [dumpsChars_obj, dumpsChars_obj, sortKeys_eq_self (pairwise_sortKeys ms)]
  have hchars : (obj (sortKeys members)).dumpsChars py false ++ [] =
      (obj (sortKeys members')).dumpsChars py false ++ [] := by
    rw [← hdump, ← hdump, String.ofList_inj.mp he]
  obtain ⟨hobj, -⟩ := (hsort members h).dumpsChars_append_inj py (hsort members' h') hchars
  have hsorted : sortKeys members = sortKeys members' := by injection hobj
  calc
    members.Perm (sortKeys members) := (sortKeys_perm members).symm
    _ = sortKeys members' := hsorted
    Perm _ members' := sortKeys_perm members'

end Py
