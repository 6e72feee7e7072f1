import OmniDoer.Library.PyNumber

/-! Two spellings of a positive number by its significant decimal digits: `repr` of a
Python float and `Number::toString` of JavaScript. Both start from the shortest digits
that read back as the number. They switch to an exponent at different sizes, write its
digits differently, and only the first marks a whole number as a float. -/

namespace Py

open List

/-- Significant digits `d₁ … dₖ` and the position of the decimal point, counted from
before the first digit. -/
structure Decimal where
  digits : List Char
  point : ℤ
  nonempty : digits ≠ []
  isDigit : ∀ c ∈ digits, c.isDigit = true

namespace Decimal

/-- The number without an exponent; a whole number has no point. -/
def plain (d : Decimal) : List Char :=
  if d.point ≤ 0 then '0' :: '.' :: (List.replicate (-d.point).toNat '0' ++ d.digits)
  else if d.digits.length ≤ d.point then
    d.digits ++ List.replicate (d.point.toNat - d.digits.length) '0'
  else d.digits.take d.point.toNat ++ '.' :: d.digits.drop d.point.toNat

def mantissa (d : Decimal) : List Char :=
  match d.digits with
  | [] => []
  | [c] => [c]
  | c :: rest => c :: '.' :: rest

/-- The size of the exponent in at least `width` digits. -/
def exponentDigits (width : ℕ) (d : Decimal) : List Char :=
  (Nat.toDigits 10 (d.point - 1).natAbs).leftpad width '0'

/-- The number with one digit before the point and an exponent. -/
def scientific (width : ℕ) (d : Decimal) : List Char :=
  d.mantissa ++ 'e' :: (if 0 ≤ d.point - 1 then '+' else '-') :: d.exponentDigits width

/-- `repr(x)` of a float. -/
def pythonRepr (d : Decimal) : List Char :=
  if d.point ≤ -4 ∨ 16 < d.point then d.scientific 2
  else if d.digits.length ≤ d.point then d.plain ++ ['.', '0']
  else d.plain

/-- `String(x)` of a number. -/
def javascriptText (d : Decimal) : List Char :=
  if -6 < d.point ∧ d.point ≤ 21 then d.plain else d.scientific 1

/-- A very small number, a small fraction, a number with a fractional part, or a very
large number. -/
def SpelledAlike (d : Decimal) : Prop :=
  d.point ≤ -9 ∨ (-3 ≤ d.point ∧ d.point ≤ 0) ∨
    (0 < d.point ∧ d.point ≤ 16 ∧ d.point < d.digits.length) ∨ 21 < d.point

instance (d : Decimal) : Decidable d.SpelledAlike :=
  inferInstanceAs (Decidable (_ ∨ _ ∨ _ ∨ _))

variable (d : Decimal)

theorem length_pos : 0 < d.digits.length := length_pos_iff.2 d.nonempty

theorem length_toDigits_pos (n : ℕ) : 0 < (Nat.toDigits 10 n).length :=
  length_pos_iff.2 Nat.toDigits_ne_nil

theorem two_le_length_toDigits_iff (n : ℕ) : 2 ≤ (Nat.toDigits 10 n).length ↔ 10 ≤ n := by
  by_cases hn : n < 10
  · rw [Nat.toDigits_of_lt_base hn]
    exact iff_of_false (by simp) (by omega)
  · rw [Nat.toDigits_of_base_le (by decide) (by omega), length_append, length_singleton]
    have hpos := length_toDigits_pos (n / 10)
    omega

theorem scientific_eq_iff : d.scientific 2 = d.scientific 1 ↔ 10 ≤ (d.point - 1).natAbs := by
  rw [← two_le_length_toDigits_iff]
  unfold scientific exponentDigits leftpad
  have hpos := length_toDigits_pos (d.point - 1).natAbs
  rw [append_cancel_left_eq, cons_eq_cons, cons_eq_cons]
  constructor
  · intro h
    have hlength := congrArg length h.2.2
    simp only [length_append, length_replicate] at hlength
    omega
  · intro h
    refine ⟨rfl, rfl, ?_⟩
    rw [Nat.sub_eq_zero_of_le h, Nat.sub_eq_zero_of_le hpos]

theorem e_notMem_plain : 'e' ∉ d.plain := by
  have hdigits : 'e' ∉ d.digits := fun h => (nomatch d.isDigit 'e' h)
  have hzeros (n : ℕ) : 'e' ∉ replicate n '0' := fun h => absurd (eq_of_mem_replicate h) (by decide)
  unfold plain
  split
  · simp only [mem_cons, mem_append, not_or]
    exact ⟨by decide, by decide, hzeros _, hdigits⟩
  split
  · simp only [mem_append, not_or]
    exact ⟨hdigits, hzeros _⟩
  · simp only [mem_append, mem_cons, not_or]
    exact ⟨fun h => hdigits (mem_of_mem_take h), by decide, fun h => hdigits (mem_of_mem_drop h)⟩

theorem scientific_ne_plain (width : ℕ) : d.scientific width ≠ d.plain := by
  intro h
  apply d.e_notMem_plain
  rw [← h]
  exact mem_append_right _ mem_cons_self

theorem pythonRepr_eq_javascriptText_iff : d.pythonRepr = d.javascriptText ↔ d.SpelledAlike := by
  have hlength := d.length_pos
  unfold pythonRepr javascriptText SpelledAlike
  by_cases hexponent : d.point ≤ -4 ∨ 16 < d.point
  · rw [if_pos hexponent]
    by_cases hplain : -6 < d.point ∧ d.point ≤ 21
    · rw [if_pos hplain]
      exact iff_of_false (d.scientific_ne_plain 2) (by omega)
    · rw [if_neg hplain, scientific_eq_iff]
      omega
  · have hplain : -6 < d.point ∧ d.point ≤ 21 := by omega
    rw [if_neg hexponent, if_pos hplain]
    by_cases hwhole : (d.digits.length : ℤ) ≤ d.point
    · rw [if_pos hwhole]
      refine iff_of_false (fun h => ?_) (by omega)
      have hlengths := congrArg length h
      simp only [length_append, length_cons] at hlengths
      omega
    · rw [if_neg hwhole]
      exact iff_of_true rfl (by omega)

theorem toNat_lt_of_isDigit {c : Char} (h : c.isDigit = true) : c.toNat < 127 := by
  simp only [Char.isDigit, Bool.and_eq_true, decide_eq_true_eq] at h
  have hle : c.toNat ≤ 57 := h.2
  omega

theorem ascii_plain : ∀ c ∈ d.plain, c.toNat < 127 := by
  have hdigits : ∀ c ∈ d.digits, c.toNat < 127 := fun c h => toNat_lt_of_isDigit (d.isDigit c h)
  have hzeros (n : ℕ) : ∀ c ∈ replicate n '0', c.toNat < 127 := by
    intro c h
    rw [eq_of_mem_replicate h]
    decide
  intro c hc
  unfold plain at hc
  split at hc
  · simp only [mem_cons, mem_append] at hc
    rcases hc with rfl | rfl | hc | hc
    · decide
    · decide
    · exact hzeros _ c hc
    · exact hdigits c hc
  split at hc
  · rcases mem_append.1 hc with hc | hc
    · exact hdigits c hc
    · exact hzeros _ c hc
  · simp only [mem_append, mem_cons] at hc
    rcases hc with hc | rfl | hc
    · exact hdigits c (mem_of_mem_take hc)
    · decide
    · exact hdigits c (mem_of_mem_drop hc)

theorem ascii_scientific (width : ℕ) : ∀ c ∈ d.scientific width, c.toNat < 127 := by
  have hmantissa : ∀ c ∈ d.mantissa, c.toNat < 127 := by
    obtain ⟨digits, point, hne, hdigits⟩ := d
    rcases digits with _ | ⟨x, _ | ⟨y, rest⟩⟩
    · exact (hne rfl).elim
    · exact fun c hc => toNat_lt_of_isDigit (hdigits c hc)
    · intro c hc
      rcases mem_cons.1 hc with rfl | hc
      · exact toNat_lt_of_isDigit (hdigits c mem_cons_self)
      rcases mem_cons.1 hc with rfl | hc
      · decide
      · exact toNat_lt_of_isDigit (hdigits c (mem_cons_of_mem _ hc))
  intro c hc
  simp only [scientific, exponentDigits, leftpad, mem_append, mem_cons] at hc
  rcases hc with hc | rfl | rfl | hc | hc
  · exact hmantissa c hc
  · decide
  · split <;> decide
  · rw [eq_of_mem_replicate hc]
    decide
  · exact toNat_lt_of_isDigit (Nat.isDigit_of_mem_toDigits (by decide) (by decide) hc)

theorem ascii_pythonRepr : ∀ c ∈ d.pythonRepr, c.toNat < 127 := by
  unfold pythonRepr
  split
  · exact d.ascii_scientific 2
  split
  · intro c hc
    rcases mem_append.1 hc with hc | hc
    · exact d.ascii_plain c hc
    · simp only [mem_cons, not_mem_nil, or_false] at hc
      rcases hc with rfl | rfl <;> decide
  · exact d.ascii_plain

end Decimal

end Py
