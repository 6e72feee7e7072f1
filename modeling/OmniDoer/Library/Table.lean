import Mathlib.Data.List.Nodup
import Mathlib.Data.List.Sort

/-! Tables keyed by a field of their own rows, as a JSON object of records is once
it has been loaded. Distinct keys are part of the type. Overwriting a row keeps its
position. -/

namespace Tables

open List

variable {κ α : Type*} [DecidableEq κ]

/-- Overwrite the row with the same key in place, or append. -/
def insertRow (key : α → κ) (a : α) : List α → List α
  | [] => [a]
  | b :: rest => if key b = key a then a :: rest else b :: insertRow key a rest

theorem mem_keys_insertRow {key : α → κ} {a : α} {rows : List α} {k : κ}
    (h : k ∈ (insertRow key a rows).map key) : k = key a ∨ k ∈ rows.map key := by
  induction rows with
  | nil => exact .inl (by simpa [insertRow] using h)
  | cons b rest ih =>
    unfold insertRow at h
    split at h
    · simp only [map_cons, mem_cons] at h ⊢
      tauto
    · simp only [map_cons, mem_cons] at h ⊢
      rcases h with h | h
      · exact .inr (.inl h)
      · exact (ih h).imp_right .inr

theorem nodup_insertRow {key : α → κ} {rows : List α} (h : (rows.map key).Nodup) (a : α) :
    ((insertRow key a rows).map key).Nodup := by
  induction rows with
  | nil => simp [insertRow]
  | cons b rest ih =>
    simp only [map_cons, nodup_cons] at h
    unfold insertRow
    split
    · rename_i hb
      simp only [map_cons, nodup_cons]
      exact ⟨hb ▸ h.1, h.2⟩
    · rename_i hb
      simp only [map_cons, nodup_cons]
      refine ⟨fun hm => ?_, ih h.2⟩
      rcases mem_keys_insertRow hm with he | hm
      · exact hb he
      · exact h.1 hm

/-- Update every row in order, threading a state through the rows. -/
def mapAccumRows {σ : Type*} (f : α → σ → α × σ) : List α → σ → List α × σ
  | [], s => ([], s)
  | a :: rest, s =>
    ((f a s).1 :: (mapAccumRows f rest (f a s).2).1, (mapAccumRows f rest (f a s).2).2)

omit [DecidableEq κ] in
theorem map_key_mapAccumRows {σ : Type*} {key : α → κ} {f : α → σ → α × σ}
    (hf : ∀ a s, key (f a s).1 = key a) (rows : List α) (s : σ) :
    (mapAccumRows f rows s).1.map key = rows.map key := by
  induction rows generalizing s with
  | nil => rfl
  | cons a rest ih => simp only [mapAccumRows, map_cons, hf, ih]

variable {σ : Type*} (f : α → σ → α × σ)

theorem mapAccumRows_snd {R : σ → σ → Prop} (hrefl : ∀ s, R s s)
    (htrans : ∀ s a u, R (f a s).2 u → R s u) (rows : List α) (s : σ) :
    R s (mapAccumRows f rows s).2 := by
  induction rows generalizing s with
  | nil => exact hrefl s
  | cons b rest ih => exact htrans s b _ (ih (f b s).2)

structure Table (key : α → κ) where
  rows : List α
  nodup : (rows.map key).Nodup

namespace Table

variable {key : α → κ}

def empty : Table key := ⟨[], List.nodup_nil⟩

def lookup (t : Table key) (k : κ) : Option α :=
  t.rows.find? fun a => decide (key a = k)

def insert (t : Table key) (a : α) : Table key :=
  ⟨insertRow key a t.rows, nodup_insertRow t.nodup a⟩

def filter (t : Table key) (p : α → Bool) : Table key :=
  ⟨t.rows.filter p, t.nodup.sublist (List.filter_sublist.map key)⟩

def mapAccum {σ : Type*} (t : Table key) (f : α → σ → α × σ) (hf : ∀ a s, key (f a s).1 = key a)
    (s : σ) : Table key × σ :=
  (⟨(mapAccumRows f t.rows s).1, by rw [map_key_mapAccumRows hf]; exact t.nodup⟩,
    (mapAccumRows f t.rows s).2)

/-- Change every row without changing its key. -/
def map {β : Type*} {key' : β → κ} (t : Table key) (f : α → β) (hf : ∀ a, key' (f a) = key a) :
    Table key' :=
  ⟨t.rows.map f, by
    have hkeys : key' ∘ f = key := funext hf
    rw [List.map_map, hkeys]
    exact t.nodup⟩

def sorted [LinearOrder κ] (t : Table key) : Table key :=
  ⟨t.rows.insertionSort fun a b => key a ≤ key b,
    ((List.perm_insertionSort _ _).map key).nodup_iff.2 t.nodup⟩

variable {t : Table key}

theorem key_of_lookup {k : κ} {a : α} (h : t.lookup k = some a) : key a = k := by
  simpa using find?_some h

theorem lookup_eq_some_iff {k : κ} {a : α} : t.lookup k = some a ↔ a ∈ t.rows ∧ key a = k := by
  constructor
  · intro h
    exact ⟨mem_of_find?_eq_some h, key_of_lookup h⟩
  · rintro ⟨hmem, rfl⟩
    cases h : t.lookup (key a) with
    | none => simpa using find?_eq_none.1 h a hmem
    | some b =>
      have hb : b ∈ t.rows := mem_of_find?_eq_some h
      rw [inj_on_of_nodup_map t.nodup hb hmem (key_of_lookup h)]

theorem lookup_congr {t t' : Table key} (h : ∀ a, a ∈ t.rows ↔ a ∈ t'.rows) (k : κ) :
    t.lookup k = t'.lookup k := by
  ext a
  rw [lookup_eq_some_iff, lookup_eq_some_iff, h]

theorem lookup_map {β : Type*} {key' : β → κ} (t : Table key) (f : α → β)
    (hf : ∀ a, key' (f a) = key a) (k : κ) : (t.map f hf).lookup k = (t.lookup k).map f := by
  simp only [lookup, map, find?_map, Function.comp_def, hf]

theorem lookup_sorted [LinearOrder κ] (t : Table key) (k : κ) : t.sorted.lookup k = t.lookup k :=
  lookup_congr (fun _ => (perm_insertionSort _ _).mem_iff) k

@[simp] theorem lookup_insert_self (t : Table key) (a : α) :
    (t.insert a).lookup (key a) = some a := by
  obtain ⟨rows, hn⟩ := t
  change (insertRow key a rows).find? _ = _
  clear hn
  induction rows with
  | nil => simp [insertRow]
  | cons b rest ih =>
    unfold insertRow
    split
    · simp
    · rename_i hb
      simpa [hb] using ih

theorem lookup_insert_of_ne (t : Table key) {a : α} {k : κ} (h : k ≠ key a) :
    (t.insert a).lookup k = t.lookup k := by
  obtain ⟨rows, hn⟩ := t
  change (insertRow key a rows).find? _ = rows.find? _
  clear hn
  induction rows with
  | nil => simp [insertRow, Ne.symm h]
  | cons b rest ih =>
    unfold insertRow
    split
    · rename_i hb
      simp [hb, Ne.symm h]
    · simp only [find?_cons, ih]

theorem lookup_insert (t : Table key) (a : α) (k : κ) :
    (t.insert a).lookup k = if k = key a then some a else t.lookup k := by
  split
  · rename_i h
    rw [h, lookup_insert_self]
  · rename_i h
    exact lookup_insert_of_ne t h

theorem mem_insert {a b : α} (h : b ∈ (t.insert a).rows) : b = a ∨ b ∈ t.rows := by
  have hlookup := lookup_eq_some_iff.2 ⟨h, rfl⟩
  rw [lookup_insert] at hlookup
  split at hlookup
  · exact .inl (Option.some.inj hlookup).symm
  · exact .inr (lookup_eq_some_iff.1 hlookup).1

theorem mem_insert_iff {a b : α} :
    b ∈ (t.insert a).rows ↔ b = a ∨ (b ∈ t.rows ∧ key b ≠ key a) := by
  have hrow (t : Table key) : b ∈ t.rows ↔ t.lookup (key b) = some b := by
    simp [lookup_eq_some_iff]
  rw [hrow, hrow, lookup_insert]
  split
  · rename_i h
    simp [h, eq_comm]
  · rename_i h
    have hne : b ≠ a := fun hba => h (congrArg key hba)
    simp [h, hne]

theorem mem_foldl_insert {rows : List α} {b : α} :
    b ∈ (rows.foldl insert t).rows ↔
      (∃ before after, rows = before ++ b :: after ∧ key b ∉ after.map key) ∨
        (b ∈ t.rows ∧ key b ∉ rows.map key) := by
  induction rows generalizing t with
  | nil => simp
  | cons r rest ih =>
    rw [foldl_cons, ih, mem_insert_iff]
    constructor
    · rintro (⟨before, after, rfl, hkey⟩ | ⟨rfl | ⟨hmem, hne⟩, hrest⟩)
      · exact .inl ⟨r :: before, after, rfl, hkey⟩
      · exact .inl ⟨[], rest, rfl, hrest⟩
      · refine .inr ⟨hmem, ?_⟩
        rw [map_cons, mem_cons, not_or]
        exact ⟨hne, hrest⟩
    · rintro (⟨before, after, hsplit, hkey⟩ | ⟨hmem, hrest⟩)
      · cases before with
        | nil =>
          obtain ⟨rfl, rfl⟩ := cons.inj hsplit
          exact .inr ⟨.inl rfl, hkey⟩
        | cons x before =>
          obtain ⟨rfl, hrest⟩ := cons.inj hsplit
          exact .inl ⟨before, after, hrest, hkey⟩
      · rw [map_cons, mem_cons, not_or] at hrest
        exact .inr ⟨.inr ⟨hmem, hrest.1⟩, hrest.2⟩

theorem lookup_foldl_insert (t t' : Table key) (k : κ) :
    (t'.rows.foldl insert t).lookup k = (t'.lookup k).or (t.lookup k) := by
  ext b
  rw [lookup_eq_some_iff, mem_foldl_insert]
  cases hk : t'.lookup k with
  | none =>
    have hkey : ¬ k ∈ t'.rows.map key := by
      intro hmem
      obtain ⟨a, ha, rfl⟩ := mem_map.1 hmem
      rw [lookup_eq_some_iff.2 ⟨ha, rfl⟩] at hk
      cases hk
    rw [Option.none_or, lookup_eq_some_iff]
    constructor
    · rintro ⟨⟨before, after, hrows, -⟩ | ⟨hmem, -⟩, rfl⟩
      · exact absurd (mem_map_of_mem (by simp [hrows])) hkey
      · exact ⟨hmem, rfl⟩
    · rintro ⟨hmem, rfl⟩
      exact ⟨.inr ⟨hmem, hkey⟩, rfl⟩
  | some a =>
    obtain ⟨ha, rfl⟩ := lookup_eq_some_iff.1 hk
    rw [Option.some_or, Option.some.injEq]
    have hnodup := t'.nodup
    obtain ⟨before, after, hrows⟩ := append_of_mem ha
    constructor
    · rintro ⟨⟨before', after', hrows', -⟩ | ⟨-, hkey⟩, hb⟩
      · refine inj_on_of_nodup_map hnodup ha ?_ hb.symm
        rw [hrows']
        exact mem_append_right _ mem_cons_self
      · rw [hb] at hkey
        exact absurd (mem_map_of_mem ha) hkey
    · rintro rfl
      refine ⟨.inl ⟨before, after, hrows, ?_⟩, rfl⟩
      rw [hrows, map_append, map_cons, nodup_append, nodup_cons] at hnodup
      exact hnodup.2.1.1

omit [DecidableEq κ] in
theorem sorted_rows_eq [LinearOrder κ] (t : Table key) {rows : List α}
    (hsorted : rows.Pairwise fun a b => key a ≤ key b) (hnodup : (rows.map key).Nodup)
    (hmem : ∀ a, a ∈ rows ↔ a ∈ t.rows) : t.sorted.rows = rows := by
  have htotal : Std.Total fun a b : α => key a ≤ key b := ⟨fun a b => le_total _ _⟩
  have htrans : IsTrans α fun a b => key a ≤ key b := ⟨fun a b c => le_trans⟩
  have hperm : t.sorted.rows.Perm rows :=
    (perm_insertionSort _ _).trans
      ((perm_ext_iff_of_nodup (.of_map _ t.nodup) (.of_map _ hnodup)).2 fun a => (hmem a).symm)
  refine Perm.eq_of_pairwise ?_ (pairwise_insertionSort _ _) hsorted hperm
  intro a b ha hb hab hba
  exact inj_on_of_nodup_map hnodup (hperm.mem_iff.1 ha) hb (le_antisymm hab hba)

/-- A row takes the place of the row of its key among the sorted rows. -/
theorem sorted_insert [LinearOrder κ] (t : Table key) (a : α) :
    ∃ before after, t.sorted.rows = before ++ (t.lookup (key a)).toList ++ after ∧
      (t.insert a).sorted.rows = before ++ a :: after := by
  have hsorted : t.sorted.rows.Pairwise fun a b => key a ≤ key b := pairwise_insertionSort _ _
  have hmem (b : α) : b ∈ t.sorted.rows ↔ b ∈ t.rows := (perm_insertionSort _ _).mem_iff
  have hnodup := t.sorted.nodup
  cases hlookup : t.lookup (key a) with
  | none =>
    -- the row goes before the first greater one
    have hnone : ∀ b ∈ t.rows, key b ≠ key a := by
      intro b hb hkey
      rw [lookup_eq_some_iff.2 ⟨hb, hkey⟩] at hlookup
      cases hlookup
    refine ⟨t.sorted.rows.takeWhile fun b => ¬ key a ≤ key b,
      t.sorted.rows.dropWhile fun b => ¬ key a ≤ key b, by simp, ?_⟩
    refine Eq.trans ?_ (orderedInsert_eq_take_drop (fun a b : α => key a ≤ key b) a t.sorted.rows)
    have hperm := perm_orderedInsert (fun a b : α => key a ≤ key b) a t.sorted.rows
    refine sorted_rows_eq _ (hsorted.orderedInsert a _) ?_ fun b => ?_
    · rw [(hperm.map key).nodup_iff, map_cons, nodup_cons]
      refine ⟨fun h => ?_, hnodup⟩
      obtain ⟨b, hb, hkey⟩ := mem_map.1 h
      exact hnone b ((hmem b).1 hb) hkey
    · rw [hperm.mem_iff, mem_cons, hmem, mem_insert_iff]
      exact or_congr_right ⟨fun hb => ⟨hb, hnone b hb⟩, fun hb => hb.1⟩
  | some b =>
    obtain ⟨hb, hkey⟩ := lookup_eq_some_iff.1 hlookup
    obtain ⟨before, after, hsplit⟩ := append_of_mem ((hmem b).2 hb)
    have hkeys : (before ++ a :: after).map key = t.sorted.rows.map key := by
      rw [hsplit, map_append, map_append, map_cons, map_cons, hkey]
    refine ⟨before, after, by simp [hsplit], sorted_rows_eq _ ?_ (hkeys ▸ hnodup) fun c => ?_⟩
    · rw [← pairwise_map (R := (· ≤ ·)), hkeys, pairwise_map]
      exact hsorted
    · rw [mem_insert_iff, ← hmem, hsplit]
      rw [hsplit, map_append, map_cons, nodup_append, nodup_cons] at hnodup
      obtain ⟨-, ⟨hafter, -⟩, hbefore⟩ := hnodup
      simp only [mem_append, mem_cons]
      constructor
      · rintro (hc | rfl | hc)
        · refine .inr ⟨.inl hc, fun h => ?_⟩
          exact hbefore _ (mem_map_of_mem hc) _ mem_cons_self (h.trans hkey.symm)
        · exact .inl rfl
        · refine .inr ⟨.inr (.inr hc), fun h => hafter ?_⟩
          rw [hkey, ← h]
          exact mem_map_of_mem hc
      · rintro (rfl | ⟨hc | rfl | hc, hne⟩)
        · exact .inr (.inl rfl)
        · exact .inl hc
        · exact absurd hkey hne
        · exact .inr (.inr hc)

theorem lookup_filter (t : Table key) (p : α → Bool) (k : κ) :
    (t.filter p).lookup k = (t.lookup k).filter p := by
  obtain ⟨rows, hn⟩ := t
  change (rows.filter p).find? _ = (rows.find? _).filter p
  induction rows with
  | nil => rfl
  | cons b rest ih =>
    simp only [map_cons, nodup_cons] at hn
    by_cases hb : key b = k
    · by_cases hp : p b = true
      · simp [hb, hp, Option.filter]
      · -- a dropped row hides no other row: the keys are distinct
        have hrest : (rest.filter p).find? (fun a => decide (key a = k)) = none := by
          simp only [find?_eq_none, decide_eq_true_eq]
          intro a ha he
          exact hn.1 (mem_map.mpr ⟨a, mem_of_mem_filter ha, he.trans hb.symm⟩)
        simp [hb, hp, hrest, Option.filter]
    · by_cases hp : p b = true
      · simpa [hb, hp] using ih hn.2
      · simpa [hb, hp] using ih hn.2

def remove (t : Table key) (k : κ) : Table key := t.filter fun a => key a ≠ k

theorem lookup_remove (t : Table key) (k q : κ) :
    (t.remove k).lookup q = if q = k then none else t.lookup q := by
  rw [remove, lookup_filter]
  cases hq : t.lookup q with
  | none => simp
  | some a => simp [Option.filter_some, key_of_lookup hq]

theorem mem_keys_iff {k : κ} : k ∈ t.rows.map key ↔ (t.lookup k).isSome = true := by
  rw [Option.isSome_iff_exists, mem_map]
  exact exists_congr fun a => lookup_eq_some_iff.symm

theorem lookup_filter_of_pos {k : κ} {a : α} (h : t.lookup k = some a)
    {p : α → Bool} (hp : p a = true) : (t.filter p).lookup k = some a := by
  rw [lookup_filter, h, Option.filter_some, if_pos hp]

theorem countP_insert_of_lookup {a b : α} (h : t.lookup (key a) = some b)
    {p : α → Bool} (hp : p a = p b) : (t.insert a).rows.countP p = t.rows.countP p := by
  obtain ⟨rows, hn⟩ := t
  change rows.find? _ = some b at h
  change (insertRow key a rows).countP p = rows.countP p
  clear hn
  induction rows with
  | nil => cases h
  | cons c rest ih =>
    by_cases hc : key c = key a
    · have hsame : c = b := by simpa [hc] using h
      rw [insertRow, if_pos hc, countP_cons, countP_cons, hp, hsame]
    · rw [find?_cons_of_neg (by simpa using hc)] at h
      simp [insertRow, hc, countP_cons, ih h]

theorem countP_insert_le (t : Table key) (a : α) (p : α → Bool) :
    (t.insert a).rows.countP p ≤ t.rows.countP p + 1 := by
  obtain ⟨rows, hn⟩ := t
  change (insertRow key a rows).countP p ≤ rows.countP p + 1
  clear hn
  induction rows with
  | nil => simp [insertRow]; split <;> omega
  | cons c rest ih =>
    unfold insertRow
    split
    · simp only [countP_cons]
      split <;> split <;> omega
    · simp only [countP_cons]
      omega

theorem lookup_mapAccum (t : Table key)
    (hf : ∀ a s, key (f a s).1 = key a) {R : σ → σ → Prop} (hrefl : ∀ s, R s s)
    (htrans : ∀ s a u, R (f a s).2 u → R s u) (s : σ) (k : κ) :
    ∃ u, R s u ∧ (t.mapAccum f hf s).1.lookup k = (t.lookup k).map (fun a => (f a u).1) ∧
      ∀ a ∈ t.lookup k, R (f a u).2 (t.mapAccum f hf s).2 := by
  obtain ⟨rows, hn⟩ := t
  change ∃ u, R s u ∧ (mapAccumRows f rows s).1.find? _ = (rows.find? _).map _ ∧
    ∀ a ∈ rows.find? _, R (f a u).2 (mapAccumRows f rows s).2
  clear hn
  induction rows generalizing s with
  | nil => exact ⟨s, hrefl s, rfl, fun a ha => (nomatch ha)⟩
  | cons b rest ih =>
    by_cases hb : key b = k
    · refine ⟨s, hrefl s, by simp [mapAccumRows, hf, hb], ?_⟩
      intro a ha
      simp only [find?_cons, hb, decide_true, Option.mem_def, Option.some.injEq] at ha
      exact ha ▸ mapAccumRows_snd f hrefl htrans rest (f b s).2
    · obtain ⟨u, hu, he, hlast⟩ := ih (f b s).2
      refine ⟨u, htrans s b u hu, by simpa [mapAccumRows, hf, hb] using he, ?_⟩
      simpa [mapAccumRows, hb] using hlast

end Table

variable {key : α → κ} {a : α} {rows : List α}

theorem insertRow_eq_set (key : α → κ) (a : α) (rows : List α) :
    insertRow key a rows =
      match rows.findIdx? (fun row => key row = key a) with
      | some index => rows.set index a
      | none => rows ++ [a] := by
  induction rows with
  | nil => rfl
  | cons b rows ih =>
    rw [insertRow, findIdx?_cons]
    by_cases hb : key b = key a
    · simp [hb]
    · simp only [hb]
      rw [ih]
      cases rows.findIdx? (fun row => decide (key row = key a)) <;> simp

theorem filterMap_insertRow {β : Type*} {f : α → Option β} (ha : f a = none)
    (hrows : ∀ row ∈ rows, key row = key a → f row = none) :
    (insertRow key a rows).filterMap f = rows.filterMap f := by
  induction rows with
  | nil => simp [insertRow, ha]
  | cons b rows ih =>
    rw [insertRow]
    by_cases hb : key b = key a
    · rw [if_pos hb]
      simp [ha, hrows b mem_cons_self hb]
    · rw [if_neg hb, filterMap_cons, filterMap_cons,
        ih fun row hrow => hrows row (mem_cons_of_mem _ hrow)]

end Tables
