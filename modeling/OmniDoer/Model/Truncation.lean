import Mathlib.Algebra.GroupWithZero.Nat
import OmniDoer.Library.RustText

/-! The truncation of long outputs in the middle (`utils/string/src/truncate.rs`). A slice at a
byte that is inside a character, where the code panics, is `none`. -/

namespace OmniDoer.Truncation

open Rust

/-- `s.len()`. -/
def byteLen (s : Text) : ℕ := (s.map Char.utf8Size).sum

/-- `(&s[..n], &s[n..])`. -/
def splitAtByte : ℕ → Text → Option (Text × Text)
  | n, [] => if n = 0 then some ([], []) else none
  | n, c :: s =>
    if n = 0 then some ([], c :: s)
    else if c.utf8Size ≤ n then (splitAtByte (n - c.utf8Size) s).map fun (l, r) => (c :: l, r)
    else none

structure Scan where
  prefixEnd : ℕ
  suffixStart : ℕ
  removedChars : ℕ
  suffixStarted : Bool

/-- The loop of `split_string` over `char_indices`, from the character at `idx` on. -/
def scan (beginningBytes tailStartTarget : ℕ) : ℕ → Scan → Text → Scan
  | _, st, [] => st
  | idx, st, ch :: s =>
    let charEnd := idx + ch.utf8Size
    scan beginningBytes tailStartTarget charEnd
      (if charEnd ≤ beginningBytes then { st with prefixEnd := charEnd }
      else if tailStartTarget ≤ idx then
        if st.suffixStarted then st else { st with suffixStart := idx, suffixStarted := true }
      else { st with removedChars := st.removedChars + 1 }) s

def splitString (s : Text) (beginningBytes endBytes : ℕ) : Option (ℕ × Text × Text) := do
  if s.isEmpty then return (0, [], [])
  let len := byteLen s
  let st := scan beginningBytes (len - endBytes) 0 ⟨0, len, 0, false⟩ s
  let suffixStart := if st.suffixStart < st.prefixEnd then st.prefixEnd else st.suffixStart
  let (before, _) ← splitAtByte st.prefixEnd s
  let (_, after) ← splitAtByte suffixStart s
  return (st.removedChars, before, after)

def splitBudget (budget : ℕ) : ℕ × ℕ := (budget / 2, budget - budget / 2)

def formatTruncationMarker (useTokens : Bool) (removedCount : ℕ) : Text :=
  if useTokens then s!"…{removedCount} tokens truncated…".toList
  else s!"…{removedCount} chars truncated…".toList

def approxTokensFromByteCount (bytes : ℕ) : ℕ := (bytes + 3) / 4

def removedUnits (useTokens : Bool) (removedBytes removedChars : ℕ) : ℕ :=
  if useTokens then approxTokensFromByteCount removedBytes else removedChars

def truncateWithByteEstimate (s : Text) (maxBytes : ℕ) (useTokens : Bool) : Option Text := do
  if s.isEmpty then return []
  if maxBytes = 0 then
    return formatTruncationMarker useTokens (removedUnits useTokens (byteLen s) s.length)
  if byteLen s ≤ maxBytes then return s
  let (leftBudget, rightBudget) := splitBudget maxBytes
  let (removedChars, left, right) ← splitString s leftBudget rightBudget
  return left ++ formatTruncationMarker useTokens
    (removedUnits useTokens (byteLen s - maxBytes) removedChars) ++ right

def truncateMiddleChars (s : Text) (maxBytes : ℕ) : Option Text :=
  truncateWithByteEstimate s maxBytes false

end OmniDoer.Truncation
