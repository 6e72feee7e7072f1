import OmniDoer.Library.PyText

/-! Regular expressions as `re` runs them: a backtracking matcher that lists the ends
of all matches in the order in which they are tried, so that its first result is the
match. There are no groups, look-around or back references, and the body of a
repetition must consume a character. -/

namespace Re

open List

/-- A place in the text: the character before it and everything after it. -/
structure Pos where
  prev : Option Char
  rest : List Char

inductive Pattern where
  | eps
  | char (accepts : Char → Bool)
  | seq (r s : Pattern)
  | alt (r s : Pattern)
  | rep (r : Pattern) (lo : ℕ) (hi : Option ℕ)
  | boundary

/-- Greedy repetition: one more iteration is tried before stopping. -/
def repeatResults (body : Pos → List Pos) : ℕ → ℕ → Option ℕ → Pos → List Pos
  | 0, lo, _, p => if lo = 0 then [p] else []
  | fuel + 1, lo, hi, p =>
    (if hi = some 0 then []
      else ((body p).filter fun q => q.rest.length < p.rest.length).flatMap
        (repeatResults body fuel (lo - 1) (hi.map (· - 1)))) ++
      if lo = 0 then [p] else []

namespace Pattern

/-- `\b` holds where exactly one side is a word character. -/
def atBoundary (word : Char → Bool) (p : Pos) : Bool := p.prev.any word != p.rest.head?.any word

/-- The ends of the matches that start at `p`, in the order they are tried. Each
iteration of a repetition consumes a character, so the text bounds their number. -/
def results (word : Char → Bool) : Pattern → Pos → List Pos
  | .eps, p => [p]
  | .char accepts, p =>
    match p.rest with
    | c :: rest => if accepts c then [⟨some c, rest⟩] else []
    | [] => []
  | .seq r s, p => (r.results word p).flatMap (s.results word)
  | .alt r s, p => r.results word p ++ s.results word p
  | .rep r lo hi, p => repeatResults (r.results word) (p.rest.length + 1) lo hi p
  | .boundary, p => if atBoundary word p then [p] else []

/-- `pattern.sub(repl, text)` from a place in the text. An empty match is replaced
too, and the scan then moves on by one character. -/
def subFrom (word : Char → Bool) (r : Pattern) (repl : List Char) : ℕ → Pos → List Char
  | 0, p => p.rest
  | fuel + 1, p =>
    let copy :=
      match p.rest with
      | [] => []
      | c :: rest => c :: subFrom word r repl fuel ⟨some c, rest⟩
    match (r.results word p).head? with
    | some q =>
      if q.rest.length < p.rest.length then repl ++ subFrom word r repl fuel q
      else repl ++ copy
    | none => copy

def sub (word : Char → Bool) (r : Pattern) (repl text : List Char) : List Char :=
  subFrom word r repl (text.length + 1) ⟨none, text⟩

/-- `bool(pattern.search(text))`. -/
def searchFrom (word : Char → Bool) (r : Pattern) (prev : Option Char) : List Char → Bool
  | [] => !(r.results word ⟨prev, []⟩).isEmpty
  | c :: rest => !(r.results word ⟨prev, c :: rest⟩).isEmpty || searchFrom word r (some c) rest

def search (word : Char → Bool) (r : Pattern) (text : List Char) : Bool :=
  r.searchFrom word none text

def set (chars : String) : Pattern := .char fun c => chars.toList.contains c

def opt (r : Pattern) : Pattern := .rep r 0 (some 1)

def star (r : Pattern) : Pattern := .rep r 0 none

def atLeast (n : ℕ) (r : Pattern) : Pattern := .rep r n none

def plus (r : Pattern) : Pattern := atLeast 1 r

def concat (rs : List Pattern) : Pattern := rs.foldr .seq .eps

def oneOf : List Pattern → Pattern
  | [] => .char fun _ => false
  | [r] => r
  | r :: rest => .alt r (oneOf rest)

def space : Pattern := .char Py.isSpace

def digit : Pattern := .char Py.isDecimal

def lit (text : String) : Pattern := concat (text.toList.map fun a => .char (· == a))

/-- The ASCII letter with which `IGNORECASE` identifies a character. Beyond the two
cases of a letter these are the dotted and dotless i, the long s and the Kelvin sign. -/
def foldCase (c : Char) : Char :=
  if c.toNat = 0x130 ∨ c.toNat = 0x131 then 'i'
  else if c.toNat = 0x17F then 's'
  else if c.toNat = 0x212A then 'k'
  else c.toLower

def litIgnoreCase (text : String) : Pattern :=
  concat (text.toList.map fun a => .char fun c => foldCase c == foldCase a)

end Pattern

end Re
