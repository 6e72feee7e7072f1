import Mathlib.Tactic.Common
import OmniDoer.Model.Truncation

/-! # What a truncation in the middle keeps -/

namespace OmniDoer.Truncation

open Rust List

@[simp] theorem byteLen_nil : byteLen [] = 0 := rfl

@[simp] theorem byteLen_cons (c : Char) (s : Text) : byteLen (c :: s) = c.utf8Size + byteLen s := by
  simp [byteLen]

@[simp] theorem byteLen_append (s t : Text) : byteLen (s ++ t) = byteLen s + byteLen t := by
  simp [byteLen]

theorem splitAtByte_append (p q : Text) : splitAtByte (byteLen p) (p ++ q) = some (p, q) := by
  induction p with
  | nil => cases q <;> rfl
  | cons c p ih =>
    have hc := c.utf8Size_pos
    rw [byteLen_cons, cons_append, splitAtByte, if_neg (by omega), if_pos (by omega),
      Nat.add_sub_cancel_left, ih]
    rfl

section Scan

variable {beginning t : ℕ}

theorem scan_before {i e n : ℕ} (p r : Text) (h : i + byteLen p ≤ beginning) :
    scan beginning t i ⟨i, e, n, false⟩ (p ++ r) =
      scan beginning t (i + byteLen p) ⟨i + byteLen p, e, n, false⟩ r := by
  induction p generalizing i with
  | nil => rfl
  | cons c p ih =>
    rw [byteLen_cons, ← Nat.add_assoc] at h ⊢
    rw [cons_append, scan, if_pos (by omega), ih h]

theorem scan_started {i : ℕ} (q : Text) {st : Scan} (hstarted : st.suffixStarted = true)
    (hbeginning : ∀ c ∈ q.head?, beginning < i + c.utf8Size) (htarget : t ≤ i) :
    scan beginning t i st q = st := by
  induction q generalizing i with
  | nil => rfl
  | cons c q ih =>
    have hc := hbeginning c rfl
    rw [scan, if_neg (by omega), if_pos htarget, if_pos hstarted]
    exact ih (fun _ _ => by omega) (by omega)

/-- The characters after the kept beginning: those before the target are counted, and the
first one at the target or after it starts the kept end. -/
theorem scan_after {i : ℕ} (r : Text) (st : Scan) (hstarted : st.suffixStarted = false)
    (hend : st.suffixStart = i + byteLen r)
    (hbeginning : ∀ c ∈ r.head?, beginning < i + c.utf8Size) :
    ∃ m q started, r = m ++ q ∧
      scan beginning t i st r = ⟨st.prefixEnd, i + byteLen m, st.removedChars + m.length, started⟩ ∧
      (q ≠ [] → t ≤ i + byteLen m) ∧ (m ≠ [] → i + byteLen m.dropLast < t) := by
  induction r generalizing i st with
  | nil => exact ⟨[], [], false, rfl, by rw [scan, ← hstarted, ← hend]; rfl, by simp, by simp⟩
  | cons c r ih =>
    have hc := hbeginning c rfl
    rw [scan, if_neg (by omega)]
    by_cases htarget : t ≤ i
    · rw [if_pos htarget, hstarted, if_neg (by simp),
        scan_started r rfl (fun _ _ => by omega) (by omega)]
      exact ⟨[], c :: r, true, rfl, rfl, fun _ => htarget, by simp⟩
    · rw [if_neg htarget]
      rw [byteLen_cons, ← Nat.add_assoc] at hend
      obtain ⟨m, q, started, rfl, hscan, hq, hm⟩ :=
        ih { st with removedChars := st.removedChars + 1 } hstarted hend fun _ _ => by omega
      refine ⟨c :: m, q, started, rfl, ?_, ?_, fun _ => ?_⟩
      · rw [hscan, byteLen_cons, length_cons]
        simp [Nat.add_assoc, Nat.add_comm 1]
      · simpa [Nat.add_assoc] using hq
      · cases m with
        | nil => simpa using htarget
        | cons d m => simpa [Nat.add_assoc] using hm (by simp)

end Scan

theorem exists_before (budget : ℕ) (s : Text) :
    ∃ p r, s = p ++ r ∧ byteLen p ≤ budget ∧ ∀ c ∈ r.head?, budget < byteLen p + c.utf8Size := by
  induction s generalizing budget with
  | nil => exact ⟨[], [], rfl, Nat.zero_le _, by simp⟩
  | cons c s ih =>
    by_cases hc : c.utf8Size ≤ budget
    · obtain ⟨p, r, rfl, hp, hr⟩ := ih (budget - c.utf8Size)
      refine ⟨c :: p, r, rfl, by rw [byteLen_cons]; omega, fun d hd => ?_⟩
      have hd := hr d hd
      rw [byteLen_cons]
      omega
    · exact ⟨[], c :: s, rfl, Nat.zero_le _, by simpa using hc⟩

/-- No longer text of the kind fits into the budget. -/
def Longest (kind : Text → Prop) (budget : ℕ) (t : Text) : Prop :=
  kind t ∧ byteLen t ≤ budget ∧ ∀ t', kind t' → byteLen t' ≤ budget → t'.length ≤ t.length

theorem longest_before {budget : ℕ} {p r : Text} (hp : byteLen p ≤ budget)
    (hr : ∀ c ∈ r.head?, budget < byteLen p + c.utf8Size) : Longest (· <+: p ++ r) budget p := by
  refine ⟨prefix_append p r, hp, fun t' ht' hfits => ?_⟩
  rcases prefix_or_prefix_of_prefix ht' (prefix_append p r) with hle | ⟨x, rfl⟩
  · exact hle.length_le
  · cases x with
    | nil => simp
    | cons c x =>
      rw [prefix_append_right_inj] at ht'
      obtain ⟨rest, rfl⟩ := ht'
      have hc := hr c rfl
      rw [byteLen_append, byteLen_cons] at hfits
      omega

theorem longest_after {budget : ℕ} {front q : Text} {c : Char} (hq : byteLen q ≤ budget)
    (hc : budget < c.utf8Size + byteLen q) : Longest (· <:+ front ++ [c] ++ q) budget q := by
  refine ⟨suffix_append _ q, hq, fun t' ht' hfits => ?_⟩
  rcases suffix_or_suffix_of_suffix ht' (suffix_append _ q) with hle | ⟨x, rfl⟩
  · exact hle.length_le
  · rcases eq_nil_or_concat' x with rfl | ⟨x, d, rfl⟩
    · simp
    · rw [suffix_append_inj_of_length_eq rfl] at ht'
      obtain ⟨⟨y, hy⟩, -⟩ := ht'
      have hd : d = c := by simpa using congrArg getLast? hy
      simp only [byteLen_append, byteLen_cons, byteLen_nil, hd] at hfits
      omega

/-- A text over the budget keeps the longest beginning that fits into half of it and the
longest end that fits into the rest. Between them stands the number of characters left out. -/
theorem truncateMiddleChars_keeps {s : Text} {maxBytes : ℕ} (hpos : 0 < maxBytes)
    (hlong : maxBytes < byteLen s) :
    ∃ p m q, s = p ++ m ++ q ∧
      truncateMiddleChars s maxBytes = some (p ++ formatTruncationMarker false m.length ++ q) ∧
      Longest (· <+: s) (maxBytes / 2) p ∧ Longest (· <:+ s) (maxBytes - maxBytes / 2) q := by
  obtain ⟨p, r, rfl, hp, hr⟩ := exists_before (maxBytes / 2) s
  set target := byteLen (p ++ r) - (maxBytes - maxBytes / 2) with htarget
  obtain ⟨m, q, started, rfl, hscan, hq, hm⟩ := scan_after (t := target) r
    ⟨byteLen p, byteLen (p ++ r), 0, false⟩ rfl (byteLen_append p r) hr
  have hne : m ≠ [] := by
    rintro rfl
    have hq := hq (by rintro rfl; simp at hlong; omega)
    simp only [byteLen_nil, byteLen_append] at hq htarget hlong
    omega
  obtain ⟨front, c, rfl⟩ := (eq_nil_or_concat' m).resolve_left hne
  have hm := hm hne
  rw [dropLast_concat] at hm
  have hlen : byteLen (p ++ (front ++ [c] ++ q)) =
      byteLen p + byteLen (front ++ [c]) + byteLen q := by
    simp [Nat.add_assoc]
  have hstart :=
    scan_before (t := target) (i := 0) (e := byteLen (p ++ (front ++ [c] ++ q))) (n := 0) p
    (front ++ [c] ++ q) (by simpa using hp)
  rw [Nat.zero_add, hscan] at hstart
  have hsplit : splitString (p ++ (front ++ [c] ++ q)) (maxBytes / 2) (maxBytes - maxBytes / 2) =
      some ((front ++ [c]).length, p, q) := by
    have hq := splitAtByte_append (p ++ (front ++ [c])) q
    rw [byteLen_append, append_assoc] at hq
    rw [splitString, if_neg (by simp)]
    simp only [← htarget, hstart, splitAtByte_append,
      if_neg (Nat.not_lt.2 (Nat.le_add_right _ _)), hq]
    simp
  refine ⟨p, front ++ [c], q, (append_assoc ..).symm, ?_, longest_before hp hr, ?_⟩
  · rw [truncateMiddleChars, truncateWithByteEstimate, if_neg (by simp), if_neg (by omega),
      if_neg (by omega)]
    simp only [splitBudget, hsplit]
    simp [removedUnits]
  · rw [← append_assoc, ← append_assoc]
    refine longest_after ?_ ?_
    · cases q with
      | nil => simp
      | cons d q =>
        have hq := hq (by simp)
        omega
    · have hc : byteLen (front ++ [c]) = byteLen front + c.utf8Size := by simp
      omega

theorem truncateMiddleChars_keeps_short :
    0 < 4 ∧ 4 < byteLen "aéé!".toList ∧ ∃ p m q, "aéé!".toList = p ++ m ++ q ∧
      truncateMiddleChars "aéé!".toList 4 = some (p ++ formatTruncationMarker false m.length ++ q) ∧
      Longest (· <+: "aéé!".toList) (4 / 2) p ∧ Longest (· <:+ "aéé!".toList) (4 - 4 / 2) q :=
  ⟨by decide, by decide, truncateMiddleChars_keeps (by decide) (by decide)⟩

end OmniDoer.Truncation
