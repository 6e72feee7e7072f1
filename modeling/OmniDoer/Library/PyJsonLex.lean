import OmniDoer.Library.PyJson
import Mathlib.Data.List.TakeWhile

/-! The numbers and strings of JSON texts as `json.loads` reads them. Strings hold whole
code points, so the escape of a lone surrogate is refused. -/

namespace Py

open List Option

def isJsonSpace (c : Char) : Bool := c == ' ' || c == '\t' || c == '\n' || c == '\r'

def skipSpace (cs : List Char) : List Char := cs.dropWhile isJsonSpace

/-- `0`, or a digit other than zero followed by digits. -/
def wholeDigits : List Char → Option (List Char × List Char)
  | [] => none
  | c :: cs =>
    if c = '0' then some (['0'], cs)
    else if c.isDigit then
      some (c :: cs.takeWhile Char.isDigit, cs.dropWhile Char.isDigit)
    else none

def wholePart : List Char → Option (List Char × List Char)
  | [] => none
  | c :: cs =>
    if c = '-' then (wholeDigits cs).map fun p => ('-' :: p.1, p.2) else wholeDigits (c :: cs)

def fractionPart : List Char → List Char × List Char
  | c :: d :: cs =>
    if c = '.' ∧ d.isDigit then
      (c :: d :: cs.takeWhile Char.isDigit, cs.dropWhile Char.isDigit)
    else ([], c :: d :: cs)
  | cs => ([], cs)

/-- The digits of an exponent after what has been read of it. -/
def exponentDigits (read : List Char) : List Char → Option (List Char × List Char)
  | [] => none
  | d :: cs =>
    if d.isDigit then
      some (read ++ d :: cs.takeWhile Char.isDigit, cs.dropWhile Char.isDigit)
    else none

def exponentSign (e : Char) : List Char → Option (List Char × List Char)
  | [] => none
  | c :: cs =>
    if c = '+' ∨ c = '-' then exponentDigits [e, c] cs else exponentDigits [e] (c :: cs)

def exponentText : List Char → List Char × List Char
  | [] => ([], [])
  | c :: cs =>
    if c = 'e' ∨ c = 'E' then (exponentSign c cs).getD ([], c :: cs) else ([], c :: cs)

def integerValue : List Char → ℤ
  | [] => 0
  | c :: cs =>
    if c = '-' then -(Nat.ofDigitChars 10 cs 0 : ℤ) else Nat.ofDigitChars 10 (c :: cs) 0

/-- The value of a number's text; it is an integer without a fraction and an exponent. -/
def numberValue (whole frac exp : List Char) : Option Json :=
  if frac.isEmpty && exp.isEmpty then some (.int (integerValue whole))
  else (floatOfString (String.ofList (whole ++ frac ++ exp))).map Json.float

def readNumber (cs : List Char) : Option (Json × List Char) :=
  match wholePart cs with
  | none => none
  | some (whole, rest) =>
    let frac := fractionPart rest
    let exp := exponentText frac.2
    (numberValue whole frac.1 exp.1).map fun v => (v, exp.2)

def Ends (rest : List Char) : Prop :=
  ∀ c ∈ rest.head?, c.isDigit = false ∧ c ≠ '.' ∧ c ≠ 'e' ∧ c ≠ 'E' ∧ c ≠ '+' ∧ c ≠ '-'

variable {rest : List Char}

section

variable (h : Ends rest)
include h

variable (cs : List Char)

theorem digits_append_ends :
    (cs ++ rest).takeWhile Char.isDigit = cs.takeWhile Char.isDigit ∧
      (cs ++ rest).dropWhile Char.isDigit = cs.dropWhile Char.isDigit ++ rest := by
  induction cs with
  | nil =>
    cases rest with
    | nil => exact ⟨rfl, rfl⟩
    | cons c rest => simp [(h c rfl).1]
  | cons c cs ih =>
    by_cases hc : c.isDigit = true
    · simp [hc, ih]
    · simp [hc]

theorem wholeDigits_append :
    wholeDigits (cs ++ rest) = (wholeDigits cs).map fun p => (p.1, p.2 ++ rest) := by
  cases cs with
  | nil =>
    cases rest with
    | nil => rfl
    | cons c rest =>
      have hdigit := (h c rfl).1
      have hzero : c ≠ '0' := by
        rintro rfl
        cases hdigit
      simp [wholeDigits, hzero, hdigit]
  | cons c cs =>
    simp only [cons_append, wholeDigits, digits_append_ends h]
    split_ifs <;> rfl

theorem wholePart_append {cs : List Char} (hne : cs ≠ []) :
    wholePart (cs ++ rest) = (wholePart cs).map fun p => (p.1, p.2 ++ rest) := by
  cases cs with
  | nil => exact absurd rfl hne
  | cons c cs =>
    simp only [cons_append, wholePart]
    by_cases hc : c = '-'
    · rw [if_pos hc, if_pos hc, wholeDigits_append h, Option.map_map, Option.map_map]
      rfl
    · rw [if_neg hc, if_neg hc]
      exact wholeDigits_append h (c :: cs)

theorem fractionPart_append :
    fractionPart (cs ++ rest) = ((fractionPart cs).1, (fractionPart cs).2 ++ rest) := by
  match cs, rest, h with
  | [], [], _ => rfl
  | [], [c], h => rfl
  | [], c :: d :: rest, h => simp [fractionPart, (h c rfl).2.1]
  | [c], [], _ => rfl
  | [c], d :: rest, h => simp [fractionPart, (h d rfl).1]
  | c :: d :: cs, rest, h =>
    simp only [cons_append, fractionPart, digits_append_ends h]
    split <;> rfl

theorem exponentDigits_append (read cs : List Char) :
    exponentDigits read (cs ++ rest) =
      (exponentDigits read cs).map fun p => (p.1, p.2 ++ rest) := by
  cases cs with
  | nil =>
    cases rest with
    | nil => rfl
    | cons c rest => simp [exponentDigits, (h c rfl).1]
  | cons c cs =>
    simp only [cons_append, exponentDigits, digits_append_ends h]
    split <;> rfl

theorem exponentSign_append (e : Char) :
    exponentSign e (cs ++ rest) = (exponentSign e cs).map fun p => (p.1, p.2 ++ rest) := by
  cases cs with
  | nil =>
    cases rest with
    | nil => rfl
    | cons c rest =>
      have hc := h c rfl
      simp [exponentSign, exponentDigits, hc.1, hc.2.2.2.2]
  | cons c cs =>
    simp only [cons_append, exponentSign]
    split
    · exact exponentDigits_append h _ cs
    · exact exponentDigits_append h _ (c :: cs)

theorem exponentText_append :
    exponentText (cs ++ rest) = ((exponentText cs).1, (exponentText cs).2 ++ rest) := by
  cases cs with
  | nil =>
    cases rest with
    | nil => rfl
    | cons c rest => simp [exponentText, (h c rfl).2.2.1, (h c rfl).2.2.2.1]
  | cons c cs =>
    simp only [cons_append, exponentText]
    split
    · rw [exponentSign_append h]
      cases exponentSign c cs <;> rfl
    · rfl

end

theorem readNumber_append {cs rest : List Char} {v : Json} (h : Ends rest)
    (hcs : readNumber cs = some (v, [])) : readNumber (cs ++ rest) = some (v, rest) := by
  have hne : cs ≠ [] := by
    rintro rfl
    cases hcs
  unfold readNumber at hcs ⊢
  rw [wholePart_append h hne]
  cases hwhole : wholePart cs with
  | none => simp [hwhole] at hcs
  | some p =>
    simp only [hwhole, map_some, fractionPart_append h, exponentText_append h] at hcs ⊢
    cases hvalue : numberValue p.1 (fractionPart p.2).1 (exponentText (fractionPart p.2).2).1 with
    | none => simp [hvalue] at hcs
    | some w =>
      rw [hvalue, map_some, some.injEq, Prod.mk.injEq] at hcs
      rw [hcs.1, hcs.2]
      rfl

theorem toDigits_head (n : ℕ) : ∃ c cs, Nat.toDigits 10 n = c :: cs ∧ (c = '0' → cs = []) := by
  induction n using Nat.strong_induction_on with
  | h n ih =>
    by_cases hn : n < 10
    · exact ⟨_, [], Nat.toDigits_of_lt_base hn, fun _ => rfl⟩
    · rw [Nat.toDigits_of_base_le (by decide) (by omega)]
      obtain ⟨c, cs, hcs, hzero⟩ := ih (n / 10) (by omega)
      rw [hcs]
      refine ⟨c, cs ++ [(n % 10).digitChar], rfl, ?_⟩
      -- a leading zero would make the quotient zero
      intro hc
      rw [hc, hzero hc] at hcs
      have hvalue : Nat.ofDigitChars 10 (Nat.toDigits 10 (n / 10)) 0 = n / 10 :=
        Nat.ofDigitChars_toDigits (by decide) (by decide)
      rw [hcs] at hvalue
      have : n / 10 = 0 := hvalue ▸ rfl
      omega

theorem wholeDigits_toDigits (n : ℕ) :
    wholeDigits (Nat.toDigits 10 n) = some (Nat.toDigits 10 n, []) := by
  obtain ⟨c, cs, hcs, hzero⟩ := toDigits_head n
  have hdigit : ∀ d ∈ c :: cs, d.isDigit = true := fun d hd =>
    Nat.isDigit_of_mem_toDigits (by decide) (by decide) (hcs ▸ hd)
  rw [hcs, wholeDigits]
  by_cases hc : c = '0'
  · rw [if_pos hc, hzero hc, hc]
  · have htail : ∀ d ∈ cs, d.isDigit = true := fun d hd => hdigit d (mem_cons_of_mem c hd)
    rw [if_neg hc, if_pos (hdigit c mem_cons_self), takeWhile_eq_self_iff.2 htail,
      dropWhile_eq_nil_iff.2 htail]

theorem head_toDigits_ne_minus {n : ℕ} {c : Char} {cs : List Char}
    (h : Nat.toDigits 10 n = c :: cs) : c ≠ '-' := by
  rintro rfl
  have hdigit : '-'.isDigit = true :=
    Nat.isDigit_of_mem_toDigits (by decide) (by decide) (h ▸ mem_cons_self)
  cases hdigit

theorem readNumber_int (i : ℤ) : readNumber (toString i).toList = some (.int i, []) := by
  have hof : ∀ n : ℕ, Nat.ofDigitChars 10 (Nat.toDigits 10 n) 0 = n := fun n =>
    Nat.ofDigitChars_toDigits (by decide) (by decide)
  cases i with
  | ofNat n =>
    have htext : (toString (Int.ofNat n)).toList = Nat.toDigits 10 n := Nat.toList_repr
    obtain ⟨c, cs, hcs, -⟩ := toDigits_head n
    have hwhole := wholeDigits_toDigits n
    have hminus := head_toDigits_ne_minus hcs
    rw [hcs] at hwhole
    have hpart : wholePart (c :: cs) = some (c :: cs, []) := by
      rw [wholePart, if_neg hminus, hwhole]
    rw [htext, hcs, readNumber, hpart]
    simp [fractionPart, exponentText, numberValue, integerValue, hminus, ← hcs]
  | negSucc n =>
    have htext : (toString (Int.negSucc n)).toList = '-' :: Nat.toDigits 10 (n + 1) := by
      rw [Int.toString_eq_repr, Int.repr, String.toList_append, Nat.toList_repr]
      rfl
    have hpart : wholePart ('-' :: Nat.toDigits 10 (n + 1)) =
        some ('-' :: Nat.toDigits 10 (n + 1), []) := by
      rw [wholePart, if_pos rfl, wholeDigits_toDigits, map_some]
    rw [htext, readNumber, hpart]
    simp [fractionPart, exponentText, numberValue, integerValue, Int.negSucc_eq]

def hexValue (c : Char) : Option ℕ :=
  if c.isDigit then some (c.toNat - 48)
  else if 97 ≤ c.toNat ∧ c.toNat ≤ 102 then some (c.toNat - 87)
  else if 65 ≤ c.toNat ∧ c.toNat ≤ 70 then some (c.toNat - 55)
  else none

def hexUnit (a b c d : Char) : Option ℕ := do
  some (4096 * (← hexValue a) + 256 * (← hexValue b) + 16 * (← hexValue c) + (← hexValue d))

/-- The character after a backslash other than `u`. -/
def escapedUnit (c : Char) : Option ℕ :=
  if c = '"' ∨ c = '\\' ∨ c = '/' then some c.toNat
  else if c = 'b' then some 8
  else if c = 'f' then some 12
  else if c = 'n' then some 10
  else if c = 'r' then some 13
  else if c = 't' then some 9
  else none

/-- The code units of a string literal up to its closing quote. Escapes may denote
halves of a code point. -/
def scanUnits : List Char → Option (List ℕ × List Char)
  | [] => none
  | '"' :: cs => some ([], cs)
  | '\\' :: 'u' :: a :: b :: c :: d :: cs =>
    match hexUnit a b c d with
    | none => none
    | some n => (scanUnits cs).map fun p => (n :: p.1, p.2)
  | '\\' :: c :: cs =>
    match escapedUnit c with
    | none => none
    | some n => (scanUnits cs).map fun p => (n :: p.1, p.2)
  | c :: cs => if c.toNat < 32 then none else (scanUnits cs).map fun p => (c.toNat :: p.1, p.2)

def isHighSurrogate (n : ℕ) : Bool := 0xD800 ≤ n && n < 0xDC00

def isLowSurrogate (n : ℕ) : Bool := 0xDC00 ≤ n && n < 0xE000

/-- Adjacent halves are joined; a half on its own is refused. -/
def joinUnits : List ℕ → Option (List Char)
  | [] => some []
  | [n] => if isHighSurrogate n || isLowSurrogate n then none else some [Char.ofNat n]
  | m :: n :: ns =>
    if isHighSurrogate m && isLowSurrogate n then
      (joinUnits ns).map (Char.ofNat (0x10000 + (m - 0xD800) * 1024 + (n - 0xDC00)) :: ·)
    else if isHighSurrogate m || isLowSurrogate m then none
    else (joinUnits (n :: ns)).map (Char.ofNat m :: ·)

def readString (cs : List Char) : Option (String × List Char) :=
  match scanUnits cs with
  | none => none
  | some (units, rest) => (joinUnits units).map fun chars => (String.ofList chars, rest)

/-- The units that the escape of a character denotes. -/
def charUnits (ascii : Bool) (c : Char) : List ℕ :=
  if ascii ∧ 0x10000 ≤ c.toNat then
    [0xD800 + (c.toNat - 0x10000) / 1024, 0xDC00 + (c.toNat - 0x10000) % 1024]
  else [c.toNat]

theorem hexValue_hexDigit : ∀ n < 16, hexValue (hexDigit n) = some n := by decide

theorem scanUnits_unicodeEscape {n : ℕ} (hn : n < 0x10000) (cs : List Char) :
    scanUnits (unicodeEscape n ++ cs) = (scanUnits cs).map fun p => (n :: p.1, p.2) := by
  have hunit : hexUnit (hexDigit (n / 4096 % 16)) (hexDigit (n / 256 % 16)) (hexDigit (n / 16 % 16))
      (hexDigit (n % 16)) = some n := by
    simp only [hexUnit, hexValue_hexDigit _ (Nat.mod_lt _ (by decide : 0 < 16)), bind_eq_bind,
      bind_some, some.injEq]
    omega
  simp [unicodeEscape, scanUnits, hunit]

theorem scanUnits_plain {c : Char} (hc : c ≠ '"') (hc' : c ≠ '\\') (h : 32 ≤ c.toNat)
    (cs : List Char) :
    scanUnits (c :: cs) = (scanUnits cs).map fun p => (c.toNat :: p.1, p.2) := by
  rw [scanUnits.eq_def]
  split <;> simp_all

variable (c : Char)

theorem toNat_range : c.toNat < 0xD800 ∨ 0xDFFF < c.toNat ∧ c.toNat < 0x110000 := c.valid

variable (ascii : Bool)

theorem escapeChar_cases :
    (c.toNat < 0x10000 ∧
      ∃ e, e ≠ 'u' ∧ escapedUnit e = some c.toNat ∧ escapeChar ascii c = ['\\', e]) ∨
    (c.toNat < 0x10000 ∧ escapeChar ascii c = unicodeEscape c.toNat) ∨
    (ascii = true ∧ 0x10000 ≤ c.toNat ∧
      escapeChar ascii c = unicodeEscape (0xD800 + (c.toNat - 0x10000) / 1024) ++
        unicodeEscape (0xDC00 + (c.toNat - 0x10000) % 1024)) ∨
    (c ≠ '"' ∧ c ≠ '\\' ∧ 32 ≤ c.toNat ∧ ¬ (ascii = true ∧ 127 ≤ c.toNat) ∧
      escapeChar ascii c = [c]) := by
  by_cases h₁ : c = '"'
  · exact .inl ⟨by rw [h₁]; decide, '"', by decide, by rw [h₁]; rfl, by rw [escapeChar, if_pos h₁]⟩
  by_cases h₂ : c = '\\'
  · exact .inl ⟨by rw [h₂]; decide, '\\', by decide, by rw [h₂]; rfl,
      by rw [escapeChar, if_neg h₁, if_pos h₂]⟩
  by_cases h₃ : c = '\n'
  · exact .inl ⟨by rw [h₃]; decide, 'n', by decide, by rw [h₃]; rfl, by
      rw [escapeChar, if_neg h₁, if_neg h₂, if_pos h₃]⟩
  by_cases h₄ : c = '\r'
  · exact .inl ⟨by rw [h₄]; decide, 'r', by decide, by rw [h₄]; rfl, by
      rw [escapeChar, if_neg h₁, if_neg h₂, if_neg h₃, if_pos h₄]⟩
  by_cases h₅ : c = '\t'
  · exact .inl ⟨by rw [h₅]; decide, 't', by decide, by rw [h₅]; rfl, by
      rw [escapeChar, if_neg h₁, if_neg h₂, if_neg h₃, if_neg h₄, if_pos h₅]⟩
  rw [escapeChar, if_neg h₁, if_neg h₂, if_neg h₃, if_neg h₄, if_neg h₅]
  by_cases h₆ : c.toNat = 8
  · exact .inl ⟨by omega, 'b', by decide, by rw [h₆]; rfl, by rw [if_pos h₆]⟩
  by_cases h₇ : c.toNat = 12
  · exact .inl ⟨by omega, 'f', by decide, by rw [h₇]; rfl, by rw [if_neg h₆, if_pos h₇]⟩
  rw [if_neg h₆, if_neg h₇]
  by_cases h₈ : c.toNat < 32
  · exact .inr (.inl ⟨by omega, by rw [if_pos h₈]⟩)
  rw [if_neg h₈]
  by_cases h₉ : ascii = true ∧ 127 ≤ c.toNat
  · rw [if_pos h₉]
    by_cases h₁₀ : c.toNat < 0x10000
    · exact .inr (.inl ⟨h₁₀, if_pos h₁₀⟩)
    · exact .inr (.inr (.inl ⟨h₉.1, by omega, if_neg h₁₀⟩))
  · exact .inr (.inr (.inr ⟨h₁, h₂, by omega, h₉, if_neg h₉⟩))

theorem scanUnits_escape {e : Char} {n : ℕ} (he : e ≠ 'u') (hn : escapedUnit e = some n)
    (cs : List Char) :
    scanUnits ('\\' :: e :: cs) = (scanUnits cs).map fun p => (n :: p.1, p.2) := by
  rw [scanUnits]
  · rw [hn]
  · intro _ _ _ _ _ hu
    exact absurd hu he

theorem scanUnits_escapeChar (cs : List Char) :
    scanUnits (escapeChar ascii c ++ cs) =
      (scanUnits cs).map fun p => (charUnits ascii c ++ p.1, p.2) := by
  rcases escapeChar_cases c ascii with
    ⟨hlt, e, he, hunit, htext⟩ | ⟨hlt, htext⟩ | ⟨hascii, hge, htext⟩ |
    ⟨hquote, hslash, hge, hascii, htext⟩
  · rw [htext, charUnits, if_neg fun h => by omega]
    exact scanUnits_escape he hunit cs
  · rw [htext, charUnits, if_neg fun h => by omega]
    exact scanUnits_unicodeEscape hlt cs
  · -- an astral character is written as its two halves
    have hmax := toNat_range c
    rw [htext, charUnits, if_pos ⟨hascii, hge⟩, append_assoc,
      scanUnits_unicodeEscape (by omega), scanUnits_unicodeEscape (by omega), Option.map_map]
    rfl
  · have hunits : charUnits ascii c = [c.toNat] := if_neg fun h => hascii ⟨h.1, by omega⟩
    rw [htext, hunits]
    exact scanUnits_plain hquote hslash hge cs

theorem scanUnits_escaped (chars rest : List Char) :
    scanUnits (chars.flatMap (escapeChar ascii) ++ '"' :: rest) =
      some (chars.flatMap (charUnits ascii), rest) := by
  induction chars with
  | nil => rfl
  | cons c chars ih =>
    rw [flatMap_cons, append_assoc, scanUnits_escapeChar, ih]
    rfl

theorem joinUnits_cons_char (ns : List ℕ) :
    joinUnits (c.toNat :: ns) = (joinUnits ns).map (c :: ·) := by
  have hc := toNat_range c
  have hhigh : isHighSurrogate c.toNat = false := by
    simp only [isHighSurrogate, Bool.and_eq_false_iff, decide_eq_false_iff_not]
    omega
  have hlow : isLowSurrogate c.toNat = false := by
    simp only [isLowSurrogate, Bool.and_eq_false_iff, decide_eq_false_iff_not]
    omega
  cases ns with
  | nil | cons => simp [joinUnits, hhigh, hlow]

theorem joinUnits_pair {m n : ℕ} (hm : isHighSurrogate m = true) (hn : isLowSurrogate n = true)
    (ns : List ℕ) :
    joinUnits (m :: n :: ns) =
      (joinUnits ns).map (Char.ofNat (0x10000 + (m - 0xD800) * 1024 + (n - 0xDC00)) :: ·) := by
  rw [joinUnits, hm, hn]
  rfl

theorem joinUnits_charUnits (ns : List ℕ) :
    joinUnits (charUnits ascii c ++ ns) = (joinUnits ns).map (c :: ·) := by
  unfold charUnits
  split_ifs with h
  · have hmax := toNat_range c
    have hhigh : isHighSurrogate (0xD800 + (c.toNat - 0x10000) / 1024) = true := by
      simp only [isHighSurrogate, Bool.and_eq_true, decide_eq_true_eq]
      omega
    have hlow : isLowSurrogate (0xDC00 + (c.toNat - 0x10000) % 1024) = true := by
      simp only [isLowSurrogate, Bool.and_eq_true, decide_eq_true_eq]
      omega
    have hjoin : 0x10000 + (0xD800 + (c.toNat - 0x10000) / 1024 - 0xD800) * 1024 +
        (0xDC00 + (c.toNat - 0x10000) % 1024 - 0xDC00) = c.toNat := by
      omega
    rw [cons_append, singleton_append, joinUnits_pair hhigh hlow, hjoin, Char.ofNat_toNat]
  · exact joinUnits_cons_char c ns

theorem readString_escaped (s : String) (rest : List Char) :
    readString (s.toList.flatMap (escapeChar ascii) ++ '"' :: rest) = some (s, rest) := by
  have hjoin : ∀ chars : List Char, joinUnits (chars.flatMap (charUnits ascii)) = some chars := by
    intro chars
    induction chars with
    | nil => rfl
    | cons c chars ih => rw [flatMap_cons, joinUnits_charUnits, ih, map_some]
  simp [readString, scanUnits_escaped, hjoin]

end Py
