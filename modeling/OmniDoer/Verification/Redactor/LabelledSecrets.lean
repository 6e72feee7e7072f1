import OmniDoer.Library.RegexSub
import OmniDoer.Model.Redactor
import Mathlib.Tactic.Common

/-! # Labelled secrets under redaction

The substitution for labelled secrets stops at a backslash and at the letter s, and goes on over
white space. So what is left of a secret is what follows its first s or backslash, and two
secrets are told apart exactly if that differs. -/

namespace OmniDoer.Redactor

open Py Re Re.Pattern
open List hiding concat

/-- A nonempty run of characters that are neither whitespace nor `<`. -/
def IsSecretValue (value : String) : Prop :=
  value ≠ "" ∧ ∀ c ∈ value.toList, isSpace c = false ∧ c ≠ '<'

instance IsSecretValue.decidable (value : String) : Decidable (IsSecretValue value) :=
  haveI : Decidable (∀ c ∈ value.toList, isSpace c = false ∧ c ≠ '<') :=
    List.decidableBAll (fun c => isSpace c = false ∧ c ≠ '<') value.toList
  inferInstanceAs (Decidable (_ ∧ _))

/-- Everything around the secret: the label in any case, a separator with optional
whitespace on both sides, and a continuation that ends the run of the value. -/
structure LabelledContext where
  pre : String
  key : String
  wsBefore : String
  sep : Char
  wsAfter : String
  post : String
  key_mem : asciiLower key ∈ ["password", "token", "api key", "secret", "cookie"]
  wsBefore_space : ∀ c ∈ wsBefore.toList, isSpace c = true
  sep_mem : sep = ':' ∨ sep = '='
  wsAfter_space : ∀ c ∈ wsAfter.toList, isSpace c = true
  post_head : ∀ c ∈ post.toList.head?, isSpace c = true ∨ c = '<'

def LabelledContext.text (l : LabelledContext) (value : String) : String :=
  l.pre ++ l.key ++ l.wsBefore ++ String.singleton l.sep ++ l.wsAfter ++ value ++ l.post

section Label

variable {word : Char → Bool}

end Label

/-- The characters at which the match of a value stops. -/
def stops (c : Char) : Bool := foldCase c == 's' || foldCase c == '\\'

/-- A value from its first s or backslash on. -/
def unmatched (value : String) : List Char := value.toList.dropWhile (!stops ·)

namespace LabelledContext

variable (l : LabelledContext)

/-- Nothing stands between the separator and a character at which the match stops. -/
def Blocked (value : String) : Prop := l.wsAfter = "" ∧ value.toList.head?.any stops = true

instance Blocked.decidable (value : String) : Decidable (l.Blocked value) :=
  inferInstanceAs (Decidable (_ ∧ _))

/-- The text from the label on. -/
def labelled (value : String) : List Char :=
  l.key.toList ++
    (l.wsBefore.toList ++ l.sep :: (l.wsAfter.toList ++ (value.toList ++ l.post.toList)))

/-- What the match leaves of the value and the continuation. -/
def left (value : String) : List Char := (value.toList ++ l.post.toList).dropWhile valueClass

/-- The text with the match at the label replaced. -/
def outcome (value : String) : List Char :=
  if l.Blocked value then (l.text value).toList
  else l.pre.toList ++ (redacted.toList ++ l.left value)

variable {l}

variable {word : Char → Bool} {repl : List Char}

/-- The patterns before the labelled one make the text that of `value` in the context, and no
labelled match starts before the label. -/
structure Reaches (u : UnicodeData) (text : String) (l : LabelledContext) (value : String) :
    Prop where
  others : [bearerPattern, apiKeyPattern, cardPattern, emailPattern].foldl
    (fun text pattern => pattern.sub u.isWord redacted.toList text) text.toList =
      (l.text value).toList
  first : labelledSecretPattern.startsIn u.isWord none l.pre.toList (l.labelled value) = false

/-- From there nothing but the match at the label changes the text. -/
structure Alone (u : UnicodeData) (l : LabelledContext) (value : String) : Prop where
  after : labelledSecretPattern.search u.isWord
    (if l.Blocked value then (l.text value).toList else l.left value) = false
  codes : challengeCodePattern.search u.isWord (l.outcome value) = false

/-- The same is left of two values. -/
def Agree (l : LabelledContext) (v w : String) : Prop :=
  unmatched v = unmatched w ∧ (l.Blocked v ↔ l.Blocked w)

variable {u : UnicodeData} {text : String} {v w : SecretValue}

end LabelledContext

end OmniDoer.Redactor
