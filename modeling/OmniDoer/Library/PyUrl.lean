import OmniDoer.Library.PyJson

/-! `urllib.parse.urlparse`: the scheme, and the host and port of the network
location. Path, query and fragment are not modelled. -/

namespace Py

/-- The text before and after the first separator, as `str.partition` splits it. -/
def partitionAt (sep : Char) (cs : List Char) : List Char × List Char :=
  (cs.takeWhile (· != sep), (cs.dropWhile (· != sep)).drop 1)

/-- The text after the last separator, or the whole text. -/
def afterLast (sep : Char) (cs : List Char) : List Char :=
  (cs.reverse.takeWhile (· != sep)).reverse

/-- A split URL. Its scheme is in lower case and free of the colon that ends it. -/
structure SplitUrl where
  scheme : String
  netloc : List Char
  scheme_lower : ∀ c ∈ scheme.toList, c.toLower = c
  scheme_colon : ':' ∉ scheme.toList
  deriving DecidableEq

namespace SplitUrl

/-- Leading C0 controls and spaces are dropped, tabs and line ends anywhere. -/
def clean (cs : List Char) : List Char :=
  (cs.dropWhile fun c => c.toNat ≤ 32).filter fun c => c != '\t' && c != '\r' && c != '\n'

def isSchemeChar (c : Char) : Bool := c.isAlphanum || c == '+' || c == '-' || c == '.'

/-- The scheme in lower case, and what follows its colon. -/
def splitScheme (cs : List Char) : List Char × List Char :=
  let before := (partitionAt ':' cs).1
  if cs.contains ':' && (before.head?.any Char.isAlpha && before.all isSchemeChar) then
    (before.map Char.toLower, (partitionAt ':' cs).2)
  else ([], cs)

theorem splitScheme_lower (cs : List Char) : ∀ c ∈ (splitScheme cs).1, c.toLower = c := by
  intro c hc
  simp only [splitScheme] at hc
  split at hc
  · obtain ⟨b, _, rfl⟩ := List.mem_map.1 hc
    exact toLower_toLower b
  · simp at hc

theorem splitScheme_colon (cs : List Char) : ':' ∉ (splitScheme cs).1 := by
  intro hc
  simp only [splitScheme] at hc
  split at hc
  · rename_i h
    obtain ⟨b, hb, hlower⟩ := List.mem_map.1 hc
    obtain rfl := toLower_eq_colon hlower
    simp only [Bool.and_eq_true, List.all_eq_true] at h
    exact absurd (h.2.2 _ hb) (by decide)
  · simp at hc

def splitNetloc : List Char → List Char
  | '/' :: '/' :: rest => rest.takeWhile fun c => !(c == '/' || c == '?' || c == '#')
  | _ => []

/-- `urlsplit(url)`; an unbalanced or malformed bracketed host raises. -/
def parse (py : Interpreter) (url : String) : Except Error SplitUrl :=
  let split := splitScheme (clean url.toList)
  let netloc := splitNetloc split.2
  let bracketed := (partitionAt ']' (partitionAt '[' netloc).2).1
  if netloc.contains '[' != netloc.contains ']' then .error ⟨.valueError, "Invalid IPv6 URL"⟩
  else if netloc.contains '[' && !py.bracketedHostOk (String.ofList bracketed) then
    .error ⟨.valueError, "Invalid IPv6 URL"⟩
  else if !(netloc.all fun c => c.toNat < 128) && !py.nfkcOk (String.ofList netloc) then
    .error ⟨.valueError, "netloc contains invalid characters under NFKC normalization"⟩
  else .ok ⟨String.ofList split.1, netloc,
    by simpa using splitScheme_lower _, by simpa using splitScheme_colon _⟩

/-- The host as written, without brackets, and the text of the port. -/
def hostInfo (u : SplitUrl) : List Char × List Char :=
  let info := afterLast '@' u.netloc
  if info.contains '[' then
    let (host, rest) := partitionAt ']' (partitionAt '[' info).2
    (host, (partitionAt ':' rest).2)
  else partitionAt ':' info

def rawHost (u : SplitUrl) : String := String.ofList u.hostInfo.1

/-- `hostname`: lower case except for an IPv6 zone, or nothing when it is empty. -/
def hostname (py : Interpreter) (u : SplitUrl) : Option String :=
  if u.hostInfo.1 = [] then none
  else
    let host := u.hostInfo.1.takeWhile (· != '%')
    let zone := u.hostInfo.1.dropWhile (· != '%')
    some (py.lower (String.ofList host) ++ String.ofList zone)

/-- `port`; an empty port counts as absent. -/
def port (u : SplitUrl) : Except Error (Option ℕ) :=
  let text := u.hostInfo.2
  if text = [] then .ok none
  else if text.all Char.isDigit then
    let n := text.foldl (fun n c => 10 * n + (c.toNat - 48)) 0
    if n ≤ 65535 then .ok (some n) else .error ⟨.valueError, "Port out of range 0-65535"⟩
  else .error ⟨.valueError, "Port could not be cast to integer value"⟩

end SplitUrl

end Py
