import OmniDoer.Library.PyJson
import OmniDoer.Library.Regex

/-! Redaction of model-visible observations (`omni_observer/redactor.py`). -/

namespace OmniDoer.Redactor

open Py Re Re.Pattern

def redacted : String := "[REDACTED]"

def labelMapKeys : List String := ["credential_labels", "field_labels"]

/-- A letter in the sense of `[A-Z]` under `IGNORECASE`. -/
def foldsToLetter (c : Char) : Bool := (foldCase c).isLower

/-- `[A-Za-z0-9...]` under `IGNORECASE`, with further characters. -/
def alnumIgnoreCase (more : String) : Pattern :=
  .char fun c => foldsToLetter c || c.isDigit || more.toList.contains c

/-- `[-_ ]?` -/
def dash : Pattern := opt (set "-_ ")

/-- Words joined by optional dashes. -/
def dashed (words : List String) : Pattern :=
  concat ((words.map litIgnoreCase).intersperse dash)

def secretFieldRe : Pattern :=
  oneOf ([["password"], ["passwd"], ["pwd"], ["totp"], ["otp"], ["mfa"], ["2fa"],
    ["token"], ["cookie"], ["authorization"], ["api", "key"], ["secret"], ["private", "key"],
    ["recovery"], ["backup", "code"], ["one", "time"], ["sms"], ["email", "code"],
    ["verification", "code"], ["passcode"], ["challenge", "answer"], ["captcha", "answer"],
    ["3ds", "code"], ["user", "input"], ["input", "text"], ["typed", "text"], ["error", "message"],
    ["raw", "error"], ["exception"], ["traceback"], ["stack", "trace"], ["challenge"], ["card"],
    ["cvv"], ["cvc"], ["iban"], ["account"]].map dashed)

/-- `Bearer\s+[A-Za-z0-9._~+/=-]{12,}`, ignoring case. -/
def bearerPattern : Pattern :=
  concat [litIgnoreCase "Bearer", plus space, atLeast 12 (alnumIgnoreCase "._~+/=-")]

/-- `\b(?:ghp|github_pat|sk|pk)_[A-Za-z0-9_]{12,}\b` -/
def apiKeyPattern : Pattern :=
  concat [.boundary, oneOf [lit "ghp", lit "github_pat", lit "sk", lit "pk"], lit "_",
    atLeast 12 (.char fun c => c.isAlphanum || c == '_'), .boundary]

/-- `\b(?:\d[ -]?){13,19}\b` -/
def cardPattern : Pattern :=
  concat [.boundary, .rep (.seq digit (opt (set " -"))) 13 (some 19), .boundary]

/-- `\b[A-Z0-9._%+-]+@[A-Z0-9.-]+\.[A-Z]{2,}\b`, ignoring case. -/
def emailPattern : Pattern :=
  concat [.boundary, plus (alnumIgnoreCase "._%+-"), lit "@", plus (alnumIgnoreCase ".-"), lit ".",
    atLeast 2 (.char foldsToLetter), .boundary]

/-- The class `[^\\s<]` of the raw pattern text. The doubled backslash is a literal
one, so the class leaves out the backslash and the letter s, not whitespace. -/
def valueClass (c : Char) : Bool := !(foldCase c == '\\' || foldCase c == 's' || foldCase c == '<')

/-- `(password|token|api[-_ ]?key|secret|cookie)`, ignoring case. -/
def secretLabel : Pattern :=
  oneOf [litIgnoreCase "password", litIgnoreCase "token", dashed ["api", "key"],
    litIgnoreCase "secret", litIgnoreCase "cookie"]

/-- `(password|token|api[-_ ]?key|secret|cookie)\s*[:=]\s*[^\\s<]+`, ignoring case. -/
def labelledSecretPattern : Pattern :=
  concat [secretLabel, star space, set ":=", star space, plus (.char valueClass)]

/-- One-time codes and challenge answers, with an optional separator. -/
def challengeCodePattern : Pattern :=
  concat [.boundary,
    oneOf ([["totp"], ["otp"], ["mfa"], ["2fa"], ["sms", "code"], ["email", "code"],
      ["one", "time", "code"], ["verification", "code"], ["captcha", "answer"],
      ["challenge", "answer"], ["3ds", "code"], ["passcode"]].map dashed),
    .boundary, star space, opt (set ":="), star space, atLeast 4 (alnumIgnoreCase "-")]

def textPatterns : List Pattern :=
  [bearerPattern, apiKeyPattern, cardPattern, emailPattern, labelledSecretPattern,
    challengeCodePattern]

def redactChars (u : UnicodeData) (text : List Char) : List Char :=
  textPatterns.foldl (fun text pattern => pattern.sub u.isWord redacted.toList text) text

def redactText (u : UnicodeData) (value : String) : String :=
  String.ofList (redactChars u value.toList)

def fieldIsSensitive (py : Interpreter) (node : Dict) : Bool :=
  let haystack := " ".intercalate
    (["type", "name", "id", "label", "placeholder", "autocomplete", "role", "aria_label",
      "description"].map fun key => ((Dict.get? node key).getD (.str "")).toStr py)
  secretFieldRe.search py.isWord haystack.toList

mutual

def redactLabelMap (u : UnicodeData) : Json → Json
  | .str s => .str (redactText u s)
  | .arr items => .arr (redactLabelItems u items)
  | .obj members => .obj (redactLabelMembers u members)
  | v => v

def redactLabelItems (u : UnicodeData) : List Json → List Json
  | [] => []
  | v :: rest => redactLabelMap u v :: redactLabelItems u rest

def redactLabelMembers (u : UnicodeData) : Dict → Dict
  | [] => []
  | (key, v) :: rest => (key, redactLabelMap u v) :: redactLabelMembers u rest

end

mutual

def redactDomSnapshot (py : Interpreter) : Json → Json
  | .str s => .str (redactText py.toUnicodeData s)
  | .arr items => .arr (redactItems py items)
  | .obj members => .obj (redactMembers py (fieldIsSensitive py members) members)
  | v => v

def redactItems (py : Interpreter) : List Json → List Json
  | [] => []
  | v :: rest => redactDomSnapshot py v :: redactItems py rest

def redactMembers (py : Interpreter) (sensitive : Bool) : Dict → Dict
  | [] => []
  | (key, item) :: rest =>
    (key,
      if labelMapKeys.contains key then redactLabelMap py.toUnicodeData item
      else if sensitive && ["value", "text", "name", "description"].contains (py.lower key) then
        .str redacted
      else if secretFieldRe.search py.isWord key.toList then .str redacted
      else redactDomSnapshot py item) :: redactMembers py sensitive rest

end

end OmniDoer.Redactor
