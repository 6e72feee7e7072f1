import OmniDoer.Library.ChangeLog
import OmniDoer.Library.Program
import OmniDoer.Library.PyJsonRead
import OmniDoer.Model.Redactor

/-! # The vault

The model of `omni_vault/vault.py`. A `Vault` object holds a copy of the whole file; each
change is made to the copy, which is then written to the file beside the vault and moved
over it. Between two operations on the files any other object may be at work. -/

namespace OmniDoer.Vault

open Py Effects ChangeLogs

/-- `text[:1]***text[-1:]`, or the first letter of the local part of an address. -/
def usernameHint (username : String) : String :=
  let text := stripChars username.toList
  if text = [] then ""
  else if '@' ∈ text then
    let localPart := text.takeWhile (· ≠ '@')
    let domain := (text.dropWhile (· ≠ '@')).tail
    String.ofList (localPart.take 1 ++ "***@".toList ++ domain)
  else if text.length ≤ 2 then "***"
  else String.ofList (text.take 1 ++ "***".toList ++ text.drop (text.length - 1))

/-- `sorted(set(origins))`. -/
def sortedSet (origins : List String) : List String :=
  origins.dedup.insertionSort (· ≤ ·)

/-- A row of the file. -/
structure Credential where
  credentialId : String
  usernameHint : String
  allowedOrigins : List String
  metadata : Json
  secretNonce : String
  secretCiphertext : String
  createdAt : ℚ
  updatedAt : Option ℚ := none

structure VaultData where
  salt : String
  credentials : List Credential

/-- What `add_credential` and `update_credential` are given. -/
structure SecretArgs where
  username : String
  password : String
  allowedOrigins : List String
  totpSeed : Option String := none
  metadata : Dict := []

structure CredentialSecret where
  username : String
  password : String
  totpSeed : Option String
  deriving DecidableEq, Repr

/-- Argon2 and AES-GCM over texts in base64; the second argument of `encrypt` is the nonce
and the last one the associated data. -/
structure Cipher (κ : Type) where
  deriveKey : String → String → κ
  encrypt : κ → String → String → String → String
  decrypt : κ → String → String → String → Except Error String
  decrypt_encrypt : ∀ key nonce text aad,
    decrypt key nonce (encrypt key nonce text aad) aad = .ok text

/-- Nothing is encrypted. -/
def plainCipher : Cipher Unit where
  deriveKey _ _ := ()
  encrypt _ _ text _ := text
  decrypt _ _ text _ := .ok text
  decrypt_encrypt _ _ _ _ := rfl

/-- `totp_seed or ""`. -/
def secretJson (args : SecretArgs) : Json :=
  .obj [("username", .str args.username), ("password", .str args.password),
    ("totp_seed", .str (args.totpSeed.getD ""))]

/-- The row as it is after the given fields have been set. -/
def Credential.withSecret {κ : Type} (py : Interpreter) (cipher : Cipher κ) (key : κ)
    (args : SecretArgs) (metadata : Json) (nonce : String) (c : Credential) : Credential :=
  { c with
    usernameHint := Vault.usernameHint args.username
    allowedOrigins := sortedSet args.allowedOrigins
    metadata := Redactor.redactDomSnapshot py metadata
    secretNonce := nonce
    secretCiphertext :=
      cipher.encrypt key nonce ((secretJson args).dumpsSpaced py) c.credentialId }

/-- `metadata or item.get("metadata") or {}`. -/
def metadataFor (args : SecretArgs) (old : Json) : Json :=
  if args.metadata = [] then (if old.truthy then old else .obj []) else .obj args.metadata

/-- What a save is made for. Nothing reads it. -/
abbrev Change := ChangeLogs.Change Credential String

/-- `tmp` is the file that all saves are written to before they are moved. -/
structure World where
  file : VaultData
  tmp : Option VaultData
  tick : ℕ
  issued : ℕ
  drawn : ℕ

inductive VaultOp where
  | readText
  | writeTmp (data : VaultData)
  | replace (change : Change)
  | time
  | uuid
  | urandom

@[reducible] def VaultOp.Ans : VaultOp → Type
  | .readText => VaultData
  | .writeTmp _ => Unit
  | .replace _ => Except Error Unit
  | .time => ℚ
  | .uuid => String
  | .urandom => String

structure Env where
  clock : ℕ → ℚ
  ids : ℕ → String
  nonces : ℕ → String

def exec (env : Env) : (o : VaultOp) → World → o.Ans × World
  | .readText, w => (w.file, w)
  | .writeTmp data, w => ((), { w with tmp := some data })
  | .replace _, w =>
    match w.tmp with
    | some data => (.ok (), { w with file := data, tmp := none })
    | none => (.error ⟨.other "FileNotFoundError", "vault.tmp"⟩, w)
  | .time, w => (env.clock w.tick, { w with tick := w.tick + 1 })
  | .uuid, w => (env.ids w.issued, { w with issued := w.issued + 1 })
  | .urandom, w => (env.nonces w.drawn, { w with drawn := w.drawn + 1 })

abbrev VaultProg (α : Type) := Prog VaultOp VaultOp.Ans Error α

namespace VaultProg

def readText : VaultProg VaultData := .op .readText .pure

def writeTmp (data : VaultData) : VaultProg Unit := .op (.writeTmp data) .pure

def replace (change : Change) : VaultProg (Except Error Unit) := .op (.replace change) .pure

def time : VaultProg ℚ := .op .time .pure

def uuid : VaultProg String := .op .uuid .pure

def urandom : VaultProg String := .op .urandom .pure

end VaultProg

open VaultProg

structure VaultObject (κ : Type) where
  data : VaultData
  key : Option κ

variable {κ : Type}

def load (cipher : Cipher κ) (passphrase : Option String) : VaultProg (VaultObject κ) := do
  let data ← readText
  return ⟨data, passphrase.map fun p => cipher.deriveKey p data.salt⟩

def VaultObject.withCredentials (vault : VaultObject κ) (credentials : List Credential) :
    VaultObject κ :=
  { vault with data := { vault.data with credentials := credentials } }

/-- A save that fails leaves the object as it was changed. -/
def save {α : Type} (vault : VaultObject κ) (change : Change) (result : α) :
    VaultProg (VaultObject κ × Except Error α) := do
  writeTmp vault.data
  let saved ← replace change
  return (vault, saved.map fun _ => result)

def vaultIsLocked : Error := ⟨.valueError, "vault is locked"⟩

def credentialNotFound (credentialId : String) : Error :=
  ⟨.keyError, "credential not found: " ++ credentialId⟩

variable (py : Interpreter) (cipher : Cipher κ)

def addCredential (vault : VaultObject κ) (args : SecretArgs) :
    VaultProg (VaultObject κ × Except Error String) :=
  match vault.key with
  | none => return (vault, .error vaultIsLocked)
  | some key => do
      let credentialId := "cred_" ++ (← uuid)
      let nonce ← urandom
      let createdAt ← time
      let blank : Credential := ⟨credentialId, "", [], .null, "", "", createdAt, none⟩
      let item := blank.withSecret py cipher key args (metadataFor args .null) nonce
      save (vault.withCredentials (vault.data.credentials ++ [item])) (.add item) credentialId

def updateCredential (vault : VaultObject κ) (credentialId : String) (args : SecretArgs) :
    VaultProg (VaultObject κ × Except Error Unit) :=
  match vault.key with
  | none => return (vault, .error vaultIsLocked)
  | some key =>
    match vault.data.credentials.find? fun c => c.credentialId = credentialId with
    | none => return (vault, .error (credentialNotFound credentialId))
    | some item => do
        let nonce ← urandom
        let updatedAt ← time
        let item := { item.withSecret py cipher key args (metadataFor args item.metadata) nonce with
          updatedAt := some updatedAt }
        save (vault.withCredentials (setRow Credential.credentialId item vault.data.credentials))
          (.update item) ()

def deleteCredential (vault : VaultObject κ) (credentialId : String) :
    VaultProg (VaultObject κ × Except Error Unit) :=
  let kept := vault.data.credentials.filter fun c => c.credentialId ≠ credentialId
  if kept.length = vault.data.credentials.length then
    return (vault, .error (credentialNotFound credentialId))
  else save (vault.withCredentials kept) (.delete credentialId) ()

/-- `CredentialSecret(username=data["username"], ...)`. -/
def secretOfJson (value : Json) : Except Error CredentialSecret :=
  match value with
  | .obj members =>
    match Dict.get? members "username", Dict.get? members "password" with
    | some (.str username), some (.str password) =>
      .ok ⟨username, password,
        match Dict.get? members "totp_seed" with
        | some (.str seed) => if seed = "" then none else some seed
        | _ => none⟩
    | _, _ => .error ⟨.keyError, "username"⟩
  | _ => .error ⟨.typeError, "username"⟩

def decryptCredential (vault : VaultObject κ) (credentialId : String) :
    Except Error CredentialSecret :=
  match vault.key with
  | none => .error vaultIsLocked
  | some key =>
    match vault.data.credentials.find? fun c => c.credentialId = credentialId with
    | none => .error (credentialNotFound credentialId)
    | some item => do
        let raw ← cipher.decrypt key item.secretNonce item.secretCiphertext item.credentialId
        match Json.loads raw with
        | none => .error ⟨.valueError, "JSONDecodeError"⟩
        | some value => secretOfJson value

inductive VaultCall where
  | add (args : SecretArgs)
  | update (credentialId : String) (args : SecretArgs)
  | delete (credentialId : String)

/-- What a call reports: the credential it has added, updated or deleted. -/
def VaultCall.prog (vault : VaultObject κ) :
    VaultCall → VaultProg (VaultObject κ × Except Error String)
  | .add args => addCredential py cipher vault args
  | .update credentialId args =>
    (fun r => (r.1, r.2.map fun _ => credentialId)) <$>
      updateCredential py cipher vault credentialId args
  | .delete credentialId =>
    (fun r => (r.1, r.2.map fun _ => credentialId)) <$> deleteCredential vault credentialId

/-- The calls on one object, one after the other, whether they fail or not. -/
def session : List VaultCall → VaultObject κ → VaultProg (List (VaultCall × Except Error String))
  | [], _ => return []
  | call :: rest, vault => do
      let (vault, answer) ← call.prog py cipher vault
      let answers ← session rest vault
      return (call, answer) :: answers

/-- An object is loaded and used. -/
def useVault (passphrase : Option String) (calls : List VaultCall) :
    VaultProg (List (VaultCall × Except Error String)) := do
  session py cipher calls (← load cipher passphrase)

end OmniDoer.Vault
