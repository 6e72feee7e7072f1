import OmniDoer.Library.PyUrl
import OmniDoer.Library.Regex

/-! Credential and approval policy (`omni_policy/policy.py`). -/

namespace OmniDoer.Policy

open Py Re Re.Pattern

inductive Decision where
  | allow
  | block
  | requireApproval
  | requireUserInteraction
  | requireTakeover
  deriving DecidableEq, Repr

structure PolicyDecision where
  decision : Decision
  reason : String
  origin : Option String
  deriving DecidableEq, Repr

/-- `:port` of an origin. The test is for a true value, so port 0 is dropped. -/
def portSuffix : Option ℕ → String
  | none => ""
  | some n => if n = 0 then "" else ":" ++ toString n

def originFromUrl (py : Interpreter) (url : String) : Except Error (Option String) := do
  let parsed ← SplitUrl.parse py url
  if parsed.scheme = "" then return none
  match parsed.hostname py with
  | none => return none
  | some hostname =>
    let port ← parsed.port
    return some (asciiLower parsed.scheme ++ "://" ++ py.lower hostname ++ portSuffix port)

def isLoopback (py : Interpreter) (origin : String) : Except Error Bool := do
  let parsed ← SplitUrl.parse py origin
  return (parsed.hostname py).any fun h => ["localhost", "127.0.0.1", "::1"].contains h

inductive Script where
  | latin
  | greek
  | cyrillic
  deriving DecidableEq, Repr

def scriptBucket (c : Char) : Option Script :=
  if c.isAlpha then some .latin
  else if 0x0370 ≤ c.toNat ∧ c.toNat ≤ 0x03FF then some .greek
  else if 0x0400 ≤ c.toNat ∧ c.toNat ≤ 0x052F then some .cyrillic
  else none

def suspiciousOriginReason (py : Interpreter) (origin : String) : Except Error (Option String) := do
  let parsed ← SplitUrl.parse py origin
  let hostname := py.lower
    (String.ofList (rstripWhile (· == '.') ((parsed.hostname py).getD "").toList))
  if hostname = "" then return none
  if ← isLoopback py origin then return none
  let labels := (hostname.toList.splitOn '.').filter fun label => !label.isEmpty
  if labels.any fun label => "xn--".toList.isPrefixOf label then
    return some "punycode origin requires manual review before credential fill"
  if labels.any fun label =>
      let scripts := label.filterMap scriptBucket
      scripts.contains .latin && (scripts.contains .cyrillic || scripts.contains .greek) then
    return some "mixed-script homograph origin requires manual review before credential fill"
  return none

/-- Plain HTTP is let through only on the loopback host. -/
def httpBlocked (py : Interpreter) (origin : String) (allowLoopbackHttp : Bool) :
    Except Error Bool :=
  if "http://".toList.isPrefixOf origin.toList then
    if allowLoopbackHttp then (! ·) <$> isLoopback py origin else .ok true
  else .ok false

/-- An absent or empty action, or one without an origin, is no mismatch. -/
def formActionMismatch (py : Interpreter) (origin : String) (formActionUrl : Option String) :
    Except Error Bool :=
  match formActionUrl with
  | none => .ok false
  | some action =>
    if action = "" then .ok false
    else (fun formOrigin => formOrigin.any (· != origin)) <$> originFromUrl py action

def evaluateCredentialFill (py : Interpreter) (currentUrl : String) (allowedOrigins : List String)
    (topLevelFrame : Bool) (formActionUrl : Option String) (allowLoopbackHttp : Bool) :
    Except Error PolicyDecision := do
  match ← originFromUrl py currentUrl with
  | none => return ⟨.block, "current URL has no origin", none⟩
  | some origin =>
    match ← suspiciousOriginReason py origin with
    | some reason => return ⟨.block, reason, some origin⟩
    | none =>
      if !allowedOrigins.contains origin then
        return ⟨.block, "origin is not allowed for credential", some origin⟩
      if ← httpBlocked py origin allowLoopbackHttp then
        return ⟨.block, "HTTP credential fill is blocked", some origin⟩
      if !topLevelFrame then
        return ⟨.block, "credential fill inside iframe is blocked", some origin⟩
      if ← formActionMismatch py origin formActionUrl then
        return ⟨.block, "form action origin mismatch", some origin⟩
      return ⟨.allow, "credential fill allowed", some origin⟩

/-- `\b(phrase|...)\b`, ignoring case. -/
def phrasePattern (phrases : List String) : Pattern :=
  concat [.boundary, oneOf (phrases.map litIgnoreCase), .boundary]

def sensitiveClickPatterns : List (String × Pattern) :=
  [("payment_submit", phrasePattern ["pay", "purchase", "buy now", "place order", "complete order",
      "submit payment", "checkout", "subscribe", "confirm payment"]),
    ("transfer", phrasePattern ["send money", "transfer", "wire transfer", "withdraw"]),
    ("oauth_grant", phrasePattern ["authorize", "allow access", "grant access", "approve access"]),
    ("account_deletion", phrasePattern ["delete account", "close account", "remove account",
      "terminate account"])]

/-- `str(d.get(key, ""))`. -/
def getText (py : Interpreter) (d : Dict) (key : String) : String :=
  ((Dict.get? d key).getD (.str "")).toStr py

/-- The `form_fields` entry, or nothing when it is not a list. -/
def formFields (metadata : Dict) : List Json :=
  match Dict.get? metadata "form_fields" with
  | some (.arr fields) => fields
  | _ => []

def fieldText (py : Interpreter) : Json → Option String
  | .obj field => some (" ".intercalate (["name", "id", "type", "value"].map (getText py field)))
  | _ => none

/-- Does the text contain the word? -/
def containsText (word text : String) : Bool := text.toList.tails.any word.toList.isPrefixOf

def classifySensitiveClick (py : Interpreter) (metadata : Dict) : Option String :=
  let haystack := " ".intercalate
    (["text", "value", "name", "id", "aria_label", "form_action", "current_url"].map
      (getText py metadata)) ++ " " ++
    " ".intercalate ((formFields metadata).filterMap (fieldText py))
  match sensitiveClickPatterns.find? fun p => p.2.search py.isWord haystack.toList with
  | some (actionType, _) => some actionType
  | none =>
    if Json.eqStr (Dict.get? metadata "tag") "button" &&
        Json.eqStr (Dict.get? metadata "type") "submit" &&
        (containsText "amount" (py.lower haystack) && containsText "currency" (py.lower haystack))
    then some "payment_submit"
    else none

end OmniDoer.Policy
