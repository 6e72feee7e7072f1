import OmniDoer.Library.RegexFind
import OmniDoer.Model.Policy
import OmniDoer.Model.Vault

/-! # Git credentials

The model of `omni_vault/git_credentials.py`: what git's askpass helper is answered. -/

namespace OmniDoer.GitCredentials

open Py Re Re.Pattern Policy Vault

def isQuote (c : Char) : Bool := c == '\'' || c == '"'

/-- `['"](https?://[^'"]+)['"]` -/
def promptUrlRe : Pattern :=
  concat [.char isQuote, lit "http", opt (lit "s"), lit "://", plus (.char fun c => !isQuote c),
    .char isQuote]

def normalizeGitOrigin (py : Interpreter) (origin : String) : Except Error String := do
  match ← originFromUrl py origin with
  | none => .error ⟨.valueError, "git credential origin must include scheme and host"⟩
  | some normalized =>
    if !"https://".toList.isPrefixOf normalized.toList then
      .error ⟨.permissionError, "git credential origin must use HTTPS"⟩
    else
      match ← suspiciousOriginReason py normalized with
      | some suspicious => .error ⟨.permissionError, suspicious⟩
      | none => .ok normalized

/-- The group of a match: all of it but the two quotes. -/
def group1 (m : List Char) : List Char := m.tail.dropLast

def promptOrigin (py : Interpreter) (prompt : String) : Except Error (Option String) :=
  match promptUrlRe.find py.isWord prompt.toList with
  | none => .ok none
  | some m => originFromUrl py (String.ofList (group1 m))

def metadataForOrigin (metadata : List Credential) (origin : String)
    (credentialId : Option String) : Except Error Credential :=
  match credentialId.filter (· ≠ "") with
  | some credentialId =>
    match metadata.find? fun item => item.credentialId = credentialId with
    | none => .error ⟨.keyError, "credential not found"⟩
    | some item =>
      if item.allowedOrigins.contains origin then .ok item
      else .error ⟨.permissionError, "credential is not allowed for git origin"⟩
  | none =>
    match metadata.find? fun item => item.allowedOrigins.contains origin with
    | none => .error ⟨.keyError, "no credential for git origin"⟩
    | some item => .ok item

/-- `vault` is what `Vault.load` gives for the path and the passphrase. -/
def loadGitCredential {κ : Type} (py : Interpreter) (cipher : Cipher κ) (origin : String)
    (vault : Except Error (VaultObject κ)) (credentialId : Option String) :
    Except Error (Credential × CredentialSecret) := do
  let normalized ← normalizeGitOrigin py origin
  let vault ← vault
  let metadata ← metadataForOrigin vault.data.credentials normalized credentialId
  let secret ← decryptCredential cipher vault metadata.credentialId
  return (metadata, secret)

/-- There is no vault without a vault path. -/
def askpassResponse {κ : Type} (py : Interpreter) (cipher : Cipher κ) (prompt origin : String)
    (secret : Option CredentialSecret) (vault : Option (Except Error (VaultObject κ)))
    (credentialId : Option String) : Except Error String := do
  let normalized ← normalizeGitOrigin py origin
  let seenOrigin ← promptOrigin py prompt
  if seenOrigin.any (· != normalized) then
    .error ⟨.permissionError, "git credential prompt origin mismatch"⟩
  else
    let secret ← match secret, vault with
      | some secret, _ => .ok secret
      | none, none => .error ⟨.valueError, "vault path is required"⟩
      | none, some vault => Prod.snd <$> loadGitCredential py cipher normalized vault credentialId
    let lowered := py.lower prompt
    if containsText "username" lowered then .ok secret.username
    else if containsText "password" lowered || containsText "token" lowered then .ok secret.password
    else .ok ""

end OmniDoer.GitCredentials
