import OmniDoer.Library.PyText
import Mathlib.Data.Int.Log
import Mathlib.Algebra.Order.Floor.Ring
import Mathlib.Data.Rat.Floor
import Mathlib.Tactic.Linarith

/-! Python floats: binary64 values with their comparisons, sums and differences, and the
conversions `float(...)` and `int(...)`. Finite values are kept as exact rationals;
the two zeros are identified, which no comparison can observe. -/

namespace Py

inductive Double where
  | nan
  | inf (negative : Bool)
  | fin (q : ℚ)
  deriving DecidableEq, Repr

namespace Double

def roundHalfEven (q : ℚ) : ℤ :=
  let r := q - ⌊q⌋
  if r < 1 / 2 then ⌊q⌋ else if 1 / 2 < r then ⌊q⌋ + 1 else if ⌊q⌋ % 2 = 0 then ⌊q⌋ else ⌊q⌋ + 1

/-- The place of the last of 53 significant bits, with gradual underflow below `2 ^ -1022`. -/
def ulp (q : ℚ) : ℚ := 2 ^ (max (Int.log 2 |q|) (-1022) - 52)

def rounded (q : ℚ) : ℚ := roundHalfEven (q / ulp q) * ulp q

/-- Nearest binary64 value, with overflow to infinity from `2 ^ 1024` on. -/
def ofRat (q : ℚ) : Double :=
  if |rounded q| < 2 ^ 1024 then .fin (rounded q) else .inf (rounded q < 0)

def add : Double → Double → Double
  | .nan, _ | _, .nan => .nan
  | .inf s, .inf t => if s = t then .inf s else .nan
  | .inf s, .fin _ | .fin _, .inf s => .inf s
  | .fin a, .fin b => ofRat (a + b)

def sub : Double → Double → Double
  | .nan, _ | _, .nan => .nan
  | .inf s, .inf t => if s = t then .nan else .inf s
  | .inf s, .fin _ => .inf s
  | .fin _, .inf t => .inf !t
  | .fin a, .fin b => ofRat (a - b)

def abs : Double → Double
  | .nan => .nan
  | .inf _ => .inf false
  | .fin q => .fin |q|

/-- `x < y`; every comparison with NaN is false. -/
def lt : Double → Double → Bool
  | .nan, _ | _, .nan => false
  | .inf s, .inf t => s && !t
  | .inf s, .fin _ => s
  | .fin _, .inf t => !t
  | .fin a, .fin b => a < b

/-- `x == y`; NaN differs from everything. -/
def eq : Double → Double → Bool
  | .nan, _ | _, .nan => false
  | .inf s, .inf t => s == t
  | .fin a, .fin b => a = b
  | _, _ => false

/-- `x <= y`. -/
def le (x y : Double) : Bool := lt x y || eq x y

variable {x y z : Double}

@[simp] theorem lt_nan (x : Double) : lt x .nan = false := by cases x <;> rfl

theorem eq_fin_iff (x : Double) (q : ℚ) : eq x (.fin q) = true ↔ x = .fin q := by
  cases x <;> simp [eq]

section Rounding

variable {a b c q : ℚ} {n : ℤ}

theorem roundHalfEven_mem (q : ℚ) :
    roundHalfEven q = ⌊q⌋ ∨ roundHalfEven q = ⌊q⌋ + 1 ∧ ⌊q⌋ < q := by
  rw [roundHalfEven]
  grind

theorem roundHalfEven_mono (h : a ≤ b) : roundHalfEven a ≤ roundHalfEven b := by
  have hfloor := Int.floor_le_floor h
  rcases hfloor.lt_or_eq with hlt | heq
  · rcases roundHalfEven_mem a with ha | ⟨ha, -⟩ <;>
      rcases roundHalfEven_mem b with hb | ⟨hb, -⟩ <;> omega
  · simp only [roundHalfEven, heq]
    grind

theorem roundHalfEven_intCast (n : ℤ) : roundHalfEven n = n := by
  simp [roundHalfEven]

theorem ulp_pos (q : ℚ) : 0 < ulp q := zpow_pos two_pos _

theorem rounded_of_multiple (h : c = n * ulp q) : roundHalfEven (c / ulp q) * ulp q = c := by
  rw [h, mul_div_cancel_right₀ _ (ulp_pos q).ne', roundHalfEven_intCast]

theorem rounded_le (hc : c = n * ulp q) (h : q ≤ c) : rounded q ≤ c := by
  rw [rounded, ← rounded_of_multiple hc]
  gcongr
  · exact (ulp_pos q).le
  · exact roundHalfEven_mono (div_le_div_of_nonneg_right h (ulp_pos q).le)

theorem le_rounded (hc : c = n * ulp q) (h : c ≤ q) : c ≤ rounded q := by
  rw [rounded]
  conv_lhs => rw [← rounded_of_multiple hc]
  gcongr
  · exact (ulp_pos q).le
  · exact roundHalfEven_mono (div_le_div_of_nonneg_right h (ulp_pos q).le)

theorem pow_multiple {k : ℤ} (hk : max (Int.log 2 |q|) (-1022) ≤ k) :
    ∃ n : ℤ, (2 : ℚ) ^ k = n * ulp q := by
  refine ⟨2 ^ (k - (max (Int.log 2 |q|) (-1022) - 52)).toNat, ?_⟩
  rw [ulp]
  push_cast
  rw [← zpow_natCast, ← zpow_add₀ two_ne_zero, Int.toNat_of_nonneg (by omega)]
  congr 1
  omega

/-- A power of two lies between magnitudes of different places. -/
theorem exists_pow_between (ha : 0 < |a|) (h : |a| ≤ |b|) :
    ulp a = ulp b ∨ ∃ k, max (Int.log 2 |a|) (-1022) ≤ k ∧ max (Int.log 2 |b|) (-1022) ≤ k ∧
      |a| ≤ 2 ^ k ∧ 2 ^ k ≤ |b| := by
  have hlog : Int.log 2 |a| ≤ Int.log 2 |b| := Int.log_mono_right ha h
  by_cases hsame : max (Int.log 2 |a|) (-1022) = max (Int.log 2 |b|) (-1022)
  · exact .inl (by rw [ulp, ulp, hsame])
  · refine .inr ⟨Int.log 2 |b|, by omega, by omega, ?_,
      Int.zpow_log_le_self one_lt_two (ha.trans_le h)⟩
    calc |a| ≤ 2 ^ (Int.log 2 |a| + 1) := (Int.lt_zpow_succ_log_self one_lt_two _).le
      _ ≤ 2 ^ Int.log 2 |b| := zpow_le_zpow_right₀ one_le_two (by omega)

theorem rounded_mono (h : a ≤ b) : rounded a ≤ rounded b := by
  have hsame (hulp : ulp a = ulp b) : rounded a ≤ rounded b := by
    rw [rounded, rounded, hulp]
    gcongr
    · exact (ulp_pos b).le
    · exact roundHalfEven_mono (div_le_div_of_nonneg_right h (ulp_pos b).le)
  have hzero (q : ℚ) : (0 : ℚ) = (0 : ℤ) * ulp q := by simp
  rcases lt_or_ge 0 a with ha | ha
  · have hb := ha.trans_le h
    rcases exists_pow_between (abs_pos.2 ha.ne') (abs_le_abs_of_nonneg ha.le h) with
      hulp | ⟨k, hka, hkb, hle, hge⟩
    · exact hsame hulp
    · rw [abs_of_pos ha] at hle
      rw [abs_of_pos hb] at hge
      obtain ⟨n, hn⟩ := pow_multiple hka
      obtain ⟨m, hm⟩ := pow_multiple hkb
      exact (rounded_le hn hle).trans (le_rounded hm hge)
  · rcases le_or_gt 0 b with hb | hb
    · exact (rounded_le (hzero a) ha).trans (le_rounded (hzero b) hb)
    · rcases exists_pow_between (abs_pos.2 hb.ne) (abs_le_abs_of_nonpos hb.le h) with
        hulp | ⟨k, hkb, hka, hle, hge⟩
      · exact hsame hulp.symm
      · rw [abs_of_neg hb] at hle
        rw [abs_of_nonpos ha] at hge
        obtain ⟨n, hn⟩ := pow_multiple hka
        obtain ⟨m, hm⟩ := pow_multiple hkb
        have hneg {n : ℤ} {q : ℚ} (hn : (2 : ℚ) ^ k = n * ulp q) :
            -(2 : ℚ) ^ k = (-n : ℤ) * ulp q := by
          rw [hn]
          push_cast
          ring
        exact (rounded_le (hneg hn) (by linarith)).trans (le_rounded (hneg hm) (by linarith))

theorem le_trans (hxy : le x y = true) (hyz : le y z = true) : le x z = true := by
  cases x <;> cases y <;> cases z <;> simp_all [le, lt, eq] <;> grind

theorem le_antisymm (hxy : le x y = true) (hyx : le y x = true) : x = y := by
  cases x <;> cases y <;> simp_all [le, lt, eq] <;> grind

theorem ofRat_mono (h : a ≤ b) : le (ofRat a) (ofRat b) = true := by
  have hr := rounded_mono h
  rw [ofRat, ofRat]
  split <;> split <;> simp_all [le, lt, eq, abs_lt] <;> grind

theorem lt_ofRat_eq_false_iff (t : ℚ) :
    lt (.fin t) (ofRat q) = false ↔ le (ofRat q) (.fin t) = true := by
  rw [ofRat]
  split
  · simp only [lt, le, eq]
    grind
  · simp [lt, le, eq]

/-- What is no later than a time is no later than any time that is not before it. -/
theorem le_of_not_lt {t : ℚ} (hxy : le x y = true) (h : lt (.fin t) y = false) :
    le x (.fin t) = true := by
  cases x <;> cases y <;> simp_all [le, lt, eq]
  grind

end Rounding

end Double

/-- A digit followed by digits, single underscores allowed between two of them. -/
def digitsTail : List Char → List ℕ × List Char
  | '_' :: c :: rest =>
    match decimalValue c with
    | some d => (d :: (digitsTail rest).1, (digitsTail rest).2)
    | none => ([], '_' :: c :: rest)
  | c :: rest =>
    match decimalValue c with
    | some d => (d :: (digitsTail rest).1, (digitsTail rest).2)
    | none => ([], c :: rest)
  | [] => ([], [])

def digitPart : List Char → Option (List ℕ × List Char)
  | c :: rest => (decimalValue c).map fun d => (d :: (digitsTail rest).1, (digitsTail rest).2)
  | [] => none

def ofDigits (ds : List ℕ) : ℕ := ds.foldl (fun n d => 10 * n + d) 0

/-- The sign is `true` for a leading minus. -/
def splitSign : List Char → Bool × List Char
  | '-' :: rest => (true, rest)
  | '+' :: rest => (false, rest)
  | cs => (false, cs)

def signed (negative : Bool) (q : ℚ) : ℚ := if negative then -q else q

/-- The exponent of a number, or nothing when the text ends. -/
def exponentPart : List Char → Option ℤ
  | [] => some 0
  | c :: rest =>
    if c = 'e' ∨ c = 'E' then
      match digitPart (splitSign rest).2 with
      | some (ds, []) => some (if (splitSign rest).1 then -(ofDigits ds : ℤ) else ofDigits ds)
      | _ => none
    else none

/-- The exact value of an unsigned `floatnumber`. -/
def floatNumber (cs : List Char) : Option ℚ :=
  let value (whole frac : List ℕ) (rest : List Char) : Option ℚ :=
    (exponentPart rest).map fun e => (ofDigits (whole ++ frac) : ℚ) * 10 ^ (e - (frac.length : ℤ))
  match digitPart cs with
  | some (whole, '.' :: rest) =>
    match digitPart rest with
    | some (frac, rest) => value whole frac rest
    | none => value whole [] rest
  | some (whole, rest) => value whole [] rest
  | none =>
    match cs with
    | '.' :: rest =>
      match digitPart rest with
      | some (frac, rest) => value [] frac rest
      | none => none
    | _ => none

/-- `float(s)`, or nothing where Python raises `ValueError`. -/
def floatOfString (s : String) : Option Double :=
  let (negative, cs) := splitSign (stripChars s.toList)
  let word := String.ofList (cs.map Char.toLower)
  if word = "nan" then some .nan
  else if word = "inf" ∨ word = "infinity" then some (.inf negative)
  else (floatNumber cs).map fun q => Double.ofRat (signed negative q)

/-- `int(s)`, or nothing where Python raises `ValueError`. -/
def intOfString (s : String) : Option ℤ :=
  let (negative, cs) := splitSign (stripChars s.toList)
  match digitPart cs with
  | some (ds, []) => some (if negative then -(ofDigits ds : ℤ) else ofDigits ds)
  | _ => none

end Py
