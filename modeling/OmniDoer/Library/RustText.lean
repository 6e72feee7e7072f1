import Mathlib.Data.List.DropRight

/-! Texts as Rust's `str` sees them: the characters one after another, with the white space
of Unicode. -/

namespace Rust

open List

abbrev Text := List Char

instance : LawfulBEq Text := inferInstance

instance : LawfulBEq (List Text) := inferInstance

/-- `char::is_whitespace`. -/
def isWhitespace (c : Char) : Bool :=
  (9 ≤ c.toNat && c.toNat ≤ 13) || c == ' ' || c.toNat == 0x85 || c.toNat == 0xA0 ||
    c.toNat == 0x1680 || (0x2000 ≤ c.toNat && c.toNat ≤ 0x200A) || c.toNat == 0x2028 ||
    c.toNat == 0x2029 || c.toNat == 0x202F || c.toNat == 0x205F || c.toNat == 0x3000

def trimStart (t : Text) : Text := t.dropWhile isWhitespace

def trimEnd (t : Text) : Text := t.rdropWhile isWhitespace

def trim (t : Text) : Text := trimEnd (trimStart t)

/-- `t.split('\n')`. -/
def splitNewlines (t : Text) : List Text := t.splitOn '\n'

/-- `lines.join("\n")`. -/
def joinNewlines (lines : List Text) : Text := ['\n'].intercalate lines

/-- The line without one carriage return at its end. -/
def stripReturn (line : Text) : Text := if line.getLast? = some '\r' then line.dropLast else line

/-- `t.lines()`: a line that ends with a line break loses a carriage return before it, and
there is no line after the last line break. -/
def lines (t : Text) : List Text :=
  (splitNewlines t).dropLast.map stripReturn ++ ((splitNewlines t).getLast?.filter (· ≠ [])).toList

section Trim

variable {t w : Text}

theorem trimStart_eq_nil (h : trimStart t = []) : ∀ c ∈ t, isWhitespace c = true := by
  simpa [trimStart, dropWhile_eq_nil_iff] using h

variable (hw : ∀ c ∈ w, isWhitespace c = true)
include hw

theorem trimEnd_append_right : trimEnd (t ++ w) = trimEnd t := by
  rw [trimEnd, rdropWhile, reverse_append, dropWhile_append_of_pos (by simpa using hw)]
  rfl

theorem trim_append_right : trim (t ++ w) = trim t := by
  rw [trim, trim]
  cases ht : trimStart t with
  | nil =>
    have hall : ∀ c ∈ t ++ w, isWhitespace c = true := by
      intro c hc
      rcases mem_append.1 hc with hc | hc
      · exact trimStart_eq_nil ht c hc
      · exact hw c hc
    have hnil : trimStart (t ++ w) = [] := by simpa [trimStart, dropWhile_eq_nil_iff] using hall
    rw [hnil]
  | cons c rest =>
    have happend : trimStart (t ++ w) = trimStart t ++ w := by
      rw [trimStart, dropWhile_append, ← trimStart, ht]
      rfl
    rw [happend, trimEnd_append_right hw, ht]

end Trim

end Rust
