import OmniDoer.Library.RegexFind

/-! Substitution by a pattern without word boundaries: only the text that is still to come
decides what is left of it, and a greedy run ends where its class ends. -/

namespace Re.Pattern

open List

variable {word : Char → Bool} {r s : Pattern} {repl : List Char}

/-- What may be left of a text after a match at its start. -/
def rests (word : Char → Bool) (r : Pattern) (t : List Char) : List (List Char) :=
  (r.results word ⟨none, t⟩).map Pos.rest

/-- A match starts in `pre`, which `rest` follows. -/
def startsIn (word : Char → Bool) (r : Pattern) (prev : Option Char) : List Char → List Char → Bool
  | [], _ => false
  | c :: pre, rest =>
    !(r.results word ⟨prev, c :: (pre ++ rest)⟩).isEmpty || startsIn word r (some c) pre rest

section Runs

variable {a : Char → Bool}

end Runs

end Re.Pattern
