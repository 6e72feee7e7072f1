import Mathlib.Data.List.Induction
import Mathlib.Data.List.Nodup

/-! Lists of rows with keys, and logs of changes to them. In a legal log each new row has a
key that was never used, and only rows that are there are updated or deleted. Then every row
is what the log says of it last. -/

namespace ChangeLogs

open List

variable {α κ : Type*} [DecidableEq κ]

inductive Change (α κ : Type*) where
  | add (a : α)
  | update (a : α)
  | delete (k : κ)

/-- Set the first row with the key of the new one, in its place. -/
def setRow (key : α → κ) (a : α) : List α → List α
  | [] => []
  | b :: rest => if key b = key a then a :: rest else b :: setRow key a rest

namespace Change

variable (key : α → κ)

def target : Change α κ → κ
  | .add a | .update a => key a
  | .delete k => k

def written : Change α κ → Option α
  | .add a | .update a => some a
  | .delete _ => none

def apply (rows : List α) : Change α κ → List α
  | .add a => rows ++ [a]
  | .update a => setRow key a rows
  | .delete k => rows.filter fun a => key a ≠ k

end Change

variable (key : α → κ)

def applyAll (rows : List α) (log : List (Change α κ)) : List α := log.foldl (Change.apply key) rows

def findRow (k : κ) (rows : List α) : Option α := rows.find? fun a => key a = k

theorem findRow_eq_none_iff {k : κ} {rows : List α} :
    findRow key k rows = none ↔ ∀ a ∈ rows, key a ≠ k := by
  simp [findRow]

variable (rows : List α)

theorem findRow_append_singleton (k : κ) (a : α) :
    findRow key k (rows ++ [a]) = (findRow key k rows).or (if key a = k then some a else none) := by
  by_cases h : key a = k <;> simp [findRow]

theorem findRow_setRow {a : α} {rows : List α} (h : ∃ b ∈ rows, key b = key a) (k : κ) :
    findRow key k (setRow key a rows) = if key a = k then some a else findRow key k rows := by
  induction rows with
  | nil => simp at h
  | cons b rest ih =>
    by_cases hb : key b = key a
    · by_cases hk : key a = k
      · simp [setRow, findRow, hb, hk]
      · simp [setRow, findRow, hb, hk]
    · have hrest : ∃ b ∈ rest, key b = key a := by
        obtain ⟨c, hc, hkey⟩ := h
        rcases mem_cons.1 hc with rfl | hc
        · exact absurd hkey hb
        · exact ⟨c, hc, hkey⟩
      have ih := ih hrest
      simp only [setRow, findRow, if_neg hb] at ih ⊢
      by_cases hbk : key b = k
      · simp [hbk, show key a ≠ k from fun hk => hb (hbk.trans hk.symm)]
      · simp [hbk, ih]

theorem findRow_filter_ne (k k' : κ) :
    findRow key k (rows.filter fun a => key a ≠ k') =
      if k' = k then none else findRow key k rows := by
  rw [findRow, find?_filter]
  split
  · rename_i h
    simp [h]
  · rename_i h
    refine congrArg (find? · rows) (funext fun a => ?_)
    by_cases ha : key a = k
    · simp [ha, Ne.symm h]
    · simp [ha]

/-- A key of the initial rows or of an earlier change. -/
def Used (rows : List α) (log : List (Change α κ)) (k : κ) : Prop :=
  (∃ a ∈ rows, key a = k) ∨ ∃ change ∈ log, change.target key = k

/-- A new row has an unused key; other changes are about a row that is there. -/
def Change.LegalAfter (rows : List α) (log : List (Change α κ)) : Change α κ → Prop
  | .add a => ¬ Used key rows log (key a)
  | .update a => ∃ b ∈ applyAll key rows log, key b = key a
  | .delete k => ∃ b ∈ applyAll key rows log, key b = k

inductive Legal (rows : List α) : List (Change α κ) → Prop
  | nil : Legal rows []
  | snoc {log : List (Change α κ)} {change : Change α κ} (h : Legal rows log)
      (hchange : change.LegalAfter key rows log) : Legal rows (log ++ [change])

/-- The row that was there at first or written last. -/
def lastWritten (rows : List α) (log : List (Change α κ)) (k : κ) : Option α :=
  ((rows ++ log.filterMap Change.written).filter fun a => key a = k).getLast?

theorem applyAll_snoc (log : List (Change α κ)) (change : Change α κ) :
    applyAll key rows (log ++ [change]) = change.apply key (applyAll key rows log) := by
  simp [applyAll]

theorem lastWritten_snoc (log : List (Change α κ)) (change : Change α κ) (k : κ) :
    lastWritten key rows (log ++ [change]) k =
      (change.written.filter fun a => key a = k).or (lastWritten key rows log k) := by
  unfold lastWritten
  cases hwritten : change.written with
  | none => simp [hwritten]
  | some a =>
    by_cases ha : key a = k <;> simp [hwritten, ha, Option.filter_some]

variable {key} {rows : List α} {log : List (Change α κ)}

theorem mem_setRow {a b : α} {rows : List α} (h : b ∈ setRow key a rows) : b = a ∨ b ∈ rows := by
  induction rows with
  | nil => simp [setRow] at h
  | cons c rest ih =>
    rw [setRow] at h
    split at h
    · rcases mem_cons.1 h with rfl | hb
      · exact .inl rfl
      · exact .inr (mem_cons_of_mem c hb)
    · rcases mem_cons.1 h with rfl | hb
      · exact .inr mem_cons_self
      · exact (ih hb).imp_right (mem_cons_of_mem c)

theorem used_of_mem_applyAll {a : α} (h : a ∈ applyAll key rows log) :
    Used key rows log (key a) := by
  induction log using reverseRecOn with
  | nil => exact .inl ⟨a, h, rfl⟩
  | append_singleton log change ih =>
    have hold (ha : a ∈ applyAll key rows log) : Used key rows (log ++ [change]) (key a) :=
      (ih ha).imp_right fun ⟨c, hc, hkey⟩ => ⟨c, mem_append_left _ hc, hkey⟩
    have hnew (hkey : change.target key = key a) : Used key rows (log ++ [change]) (key a) :=
      .inr ⟨change, by simp, hkey⟩
    rw [applyAll_snoc] at h
    cases change with
    | add b =>
      rcases mem_append.1 h with ha | ha
      · exact hold ha
      · exact hnew (congrArg key (mem_singleton.1 ha).symm)
    | update b =>
      rcases mem_setRow h with rfl | ha
      · exact hnew rfl
      · exact hold ha
    | delete k => exact hold (mem_of_mem_filter h)

/-- The log ends with what was said of a key last. -/
def Settled (key : α → κ) (rows : List α) (log : List (Change α κ)) (k : κ) : Prop :=
  (.delete k ∈ log → findRow key k (applyAll key rows log) = none) ∧
    (.delete k ∉ log → findRow key k (applyAll key rows log) = lastWritten key rows log k)

theorem findRow_eq_getLast? (hnodup : (rows.map key).Nodup) (k : κ) :
    findRow key k rows = (rows.filter fun a => key a = k).getLast? := by
  induction rows with
  | nil => rfl
  | cons a rest ih =>
    rw [map_cons, nodup_cons] at hnodup
    by_cases ha : key a = k
    · have hrest : rest.filter (fun b => key b = k) = [] := by
        refine filter_eq_nil_iff.2 fun b hb => ?_
        rw [decide_eq_true_eq, ← ha]
        exact fun hkey => hnodup.1 (hkey ▸ mem_map_of_mem hb)
      simp [findRow, ha, hrest]
    · have hih := ih hnodup.2
      simp only [findRow] at hih ⊢
      simp [ha, hih]

theorem settled_nil (hnodup : (rows.map key).Nodup) (k : κ) : Settled key rows [] k := by
  refine ⟨fun h => (nomatch h), fun _ => ?_⟩
  rw [lastWritten, filterMap_nil, append_nil]
  exact findRow_eq_getLast? hnodup k

theorem Settled.snoc {change : Change α κ} {k : κ} (h : Settled key rows log k)
    (hchange : change.LegalAfter key rows log) : Settled key rows (log ++ [change]) k := by
  unfold Settled at h ⊢
  rw [applyAll_snoc, lastWritten_snoc]
  cases change with
  | add a =>
    simp only [Change.apply, findRow_append_singleton, Change.written, mem_append,
      mem_singleton, reduceCtorEq, or_false]
    by_cases ha : key a = k
    · have hunused : .delete k ∉ log := fun hdelete =>
        hchange (.inr ⟨.delete k, hdelete, ha.symm⟩)
      have hnone : findRow key k (applyAll key rows log) = none := by
        refine (findRow_eq_none_iff key).2 fun b hb hkey => hchange ?_
        rw [ha, ← hkey]
        exact used_of_mem_applyAll hb
      exact ⟨fun hdelete => absurd hdelete hunused,
        fun _ => by simp [hnone, ha, Option.filter_some]⟩
    · simpa [ha, Option.filter_some] using h
  | update a =>
    simp only [Change.apply, findRow_setRow key hchange, Change.written, mem_append,
      mem_singleton, reduceCtorEq, or_false]
    by_cases ha : key a = k
    · have hkept : .delete k ∉ log := by
        intro hdelete
        obtain ⟨b, hb, hkey⟩ := hchange
        exact (findRow_eq_none_iff key).1 (h.1 hdelete) b hb (hkey.trans ha)
      exact ⟨fun hdelete => absurd hdelete hkept, fun _ => by simp [ha, Option.filter_some]⟩
    · simpa [ha, Option.filter_some] using h
  | delete k' =>
    simp only [Change.apply, findRow_filter_ne, Change.written]
    by_cases hk : k' = k
    · simp [hk]
    · simpa [hk, Ne.symm hk] using h

theorem Legal.settled (h : Legal key rows log) (hnodup : (rows.map key).Nodup) (k : κ) :
    Settled key rows log k := by
  induction h with
  | nil => exact settled_nil hnodup k
  | snoc _ hchange ih => exact ih.snoc hchange

end ChangeLogs
