import OmniDoer.Library.Fallible
import Mathlib.Data.Nat.Notation

/-! Python text: character classes, `strip`, and the parts of the Unicode database
that a program can observe only through `str` methods. -/

universe u v

namespace Py

open List

/-- The exception classes that the standard library and user code raise. -/
inductive ErrorKind where
  | attributeError
  | keyError
  | overflowError
  | permissionError
  | runtimeError
  | timeoutError
  | typeError
  | valueError
  | other (name : String)
  deriving DecidableEq, Repr

structure Error where
  kind : ErrorKind
  message : String
  deriving DecidableEq, Repr

/-- `str.isspace` of one character, which is also the class `\s` of `re`. -/
def isSpace (c : Char) : Bool :=
  let n := c.toNat
  (9 ≤ n && n ≤ 13) || (28 ≤ n && n ≤ 32) || n == 0x85 || n == 0xA0 || n == 0x1680 ||
    (0x2000 ≤ n && n ≤ 0x200A) || n == 0x2028 || n == 0x2029 || n == 0x202F || n == 0x205F ||
    n == 0x3000

/-- Code points of the zero digits of category `Nd`; each starts a run of ten. -/
def decimalZeros : List ℕ :=
  [0x30, 0x660, 0x6f0, 0x7c0, 0x966, 0x9e6, 0xa66, 0xae6, 0xb66, 0xbe6, 0xc66, 0xce6, 0xd66,
    0xde6, 0xe50, 0xed0, 0xf20, 0x1040, 0x1090, 0x17e0, 0x1810, 0x1946, 0x19d0, 0x1a80, 0x1a90,
    0x1b50, 0x1bb0, 0x1c40, 0x1c50, 0xa620, 0xa8d0, 0xa900, 0xa9d0, 0xa9f0, 0xaa50, 0xabf0,
    0xff10, 0x104a0, 0x10d30, 0x11066, 0x110f0, 0x11136, 0x111d0, 0x112f0, 0x11450, 0x114d0,
    0x11650, 0x116c0, 0x11730, 0x118e0, 0x11950, 0x11c50, 0x11d50, 0x11da0, 0x16a60, 0x16ac0,
    0x16b50, 0x1d7ce, 0x1d7d8, 0x1d7e2, 0x1d7ec, 0x1d7f6, 0x1e140, 0x1e2f0, 0x1e950, 0x1fbf0]

def decimalValue (c : Char) : Option ℕ :=
  (decimalZeros.find? fun z => z ≤ c.toNat && c.toNat < z + 10).map (c.toNat - ·)

/-- `str.isdecimal` of one character, which is also the class `\d` of `re`. -/
def isDecimal (c : Char) : Bool := (decimalValue c).isSome

def asciiLower (s : String) : String := String.ofList (s.toList.map Char.toLower)

def asciiUpper (s : String) : String := String.ofList (s.toList.map Char.toUpper)

theorem toNat_toLower (c : Char) :
    c.toLower.toNat = if 65 ≤ c.toNat ∧ c.toNat ≤ 90 then c.toNat + 32 else c.toNat := by
  delta Char.toLower
  simp only [Char.toNat, UInt32.le_iff_toNat_le]
  split
  · rename_i h
    have hle : c.val.toNat ≤ 90 := by simpa using h.2
    rw [if_pos (by simpa using h)]
    have hshift : ('a'.val - 'A'.val).toNat = 32 := by decide
    rw [UInt32.toNat_add]
    omega
  · rename_i h
    rw [if_neg (by simpa using h)]

theorem toLower_toLower (c : Char) : c.toLower.toLower = c.toLower := by
  apply Char.toNat_inj.1
  have h := toNat_toLower c
  rw [toNat_toLower c.toLower]
  split at h <;> split <;> omega

theorem toLower_eq_colon {c : Char} (h : c.toLower = ':') : c = ':' := by
  apply Char.toNat_inj.1
  have hnat := toNat_toLower c
  rw [h] at hnat
  split at hnat <;> simp at hnat ⊢ <;> omega

theorem asciiLower_eq_self {s : String} (h : ∀ c ∈ s.toList, c.toLower = c) : asciiLower s = s := by
  rw [asciiLower, map_congr_left h, map_id', String.ofList_toList]

theorem append_sep_inj {sep : Char} {x y r s : List Char} (hx : sep ∉ x) (hy : sep ∉ y)
    (h : x ++ sep :: r = y ++ sep :: s) : x = y ∧ r = s := by
  induction x generalizing y with
  | nil =>
    cases y with
    | nil => simpa using h
    | cons d y =>
      rw [nil_append, cons_append, cons.injEq] at h
      exact absurd (h.1 ▸ mem_cons_self) hy
  | cons c x ih =>
    cases y with
    | nil =>
      rw [nil_append, cons_append, cons.injEq] at h
      exact absurd (h.1 ▸ mem_cons_self) hx
    | cons d y =>
      simp only [cons_append, cons.injEq, mem_cons, not_or] at h hx hy
      obtain ⟨rfl, hrs⟩ := ih hx.2 hy.2 h.2
      exact ⟨by rw [h.1], hrs⟩

theorem intercalate_inj {sep : String} {c : Char} (hsep : sep.toList = [c]) {xs ys : List String}
    (hx : ∀ s ∈ xs, c ∉ s.toList) (hy : ∀ s ∈ ys, c ∉ s.toList) (hxne : xs ≠ []) (hyne : ys ≠ [])
    (h : sep.intercalate xs = sep.intercalate ys) : xs = ys := by
  have hlists := congrArg String.toList h
  rw [String.toList_intercalate, String.toList_intercalate, hsep] at hlists
  have hsplit := congrArg (splitOn c) hlists
  rw [splitOn_intercalate c (by simpa using hx) (by simpa using hxne),
    splitOn_intercalate c (by simpa using hy) (by simpa using hyne)] at hsplit
  exact map_injective_iff.2 (fun _ _ => String.toList_inj.1) hsplit

/-- `lstrip`, `rstrip` and `strip` with a character predicate. -/
def lstripWhile (p : Char → Bool) (cs : List Char) : List Char := cs.dropWhile p

def rstripWhile (p : Char → Bool) (cs : List Char) : List Char := (cs.reverse.dropWhile p).reverse

def stripChars (cs : List Char) : List Char := rstripWhile isSpace (lstripWhile isSpace cs)

/-- `str.strip()`. -/
def strip (s : String) : String := String.ofList (stripChars s.toList)

theorem strip_ne_empty {s : String} {c : Char} (hc : c ∈ s.toList) (h : isSpace c = false) :
    strip s ≠ "" := by
  have hdrop : ∀ cs : List Char, c ∈ cs → c ∈ cs.dropWhile isSpace := by
    intro cs hmem
    induction cs with
    | nil => cases hmem
    | cons d cs ih =>
      by_cases hd : isSpace d = true
      · rw [dropWhile_cons_of_pos hd]
        rcases mem_cons.1 hmem with rfl | hmem
        · rw [h] at hd
          cases hd
        · exact ih hmem
      · rw [dropWhile_cons_of_neg hd]
        exact hmem
  intro hempty
  have hmem : c ∈ stripChars s.toList := by
    rw [stripChars, rstripWhile, mem_reverse]
    exact hdrop _ (mem_reverse.2 (hdrop _ hc))
  rw [strip, String.ofList_eq_empty_iff] at hempty
  rw [hempty] at hmem
  cases hmem

/-- What `str.isalnum`, `str.lower` and `str.upper` answer. Beyond ASCII they come from
tables of the interpreter's Unicode version; on ASCII they are fixed. -/
structure UnicodeData where
  isAlnum : Char → Bool
  lower : String → String
  upper : String → String
  isAlnum_ascii : ∀ c : Char, c.toNat < 128 → isAlnum c = c.isAlphanum
  lower_ascii : ∀ s : String, (∀ c ∈ s.toList, c.toNat < 128) → lower s = asciiLower s
  upper_ascii : ∀ s : String, (∀ c ∈ s.toList, c.toNat < 128) → upper s = asciiUpper s

/-- The database of an interpreter that knows no letters beyond ASCII. -/
def UnicodeData.ascii : UnicodeData where
  isAlnum := Char.isAlphanum
  lower := asciiLower
  upper := asciiUpper
  isAlnum_ascii := fun _ _ => rfl
  lower_ascii := fun _ _ => rfl
  upper_ascii := fun _ _ => rfl

/-- The class `\w` of `re`. -/
def UnicodeData.isWord (u : UnicodeData) (c : Char) : Bool := u.isAlnum c || c == '_'

end Py
