import OmniDoer.Library.Base64
import OmniDoer.Library.PyHash
import OmniDoer.Model.Requests

/-! # The channel from the Control Client to the broker

The model of `omni_control/secure_channel.py`: which envelopes the broker opens. Key
exchange and decryption are parameters. -/

namespace OmniDoer.SecureChannel

open Py

def b64 (data : ByteArray) : String := String.ofList (Base64.digits data.data.toList)

def unb64 (data : String) : Except Error ByteArray :=
  let padding := String.ofList (List.replicate (Base64.missing data.length) '=')
  (Base64.urlsafeB64decode (data ++ padding)).map fun bytes => ⟨bytes.toArray⟩

/-- The keyword arguments that an envelope is opened with. -/
structure Expected where
  requestId : String
  origin : String
  requestType : String
  deviceId : Option String
  expiresAt : Option ℚ
  deriving DecidableEq, Repr

/-- A value other than `None`. -/
def notNone : Option Json → Option Json
  | some .null => none
  | value => value

/-- What the broker and the challenge relay expect of the stored response of a request:
the expiry is compared only when the envelope has one. -/
def expectedFor (request : Requests.ControlRequest) (envelope : Dict) : Expected where
  requestId := request.requestId
  origin := request.origin
  requestType := request.requestType.name
  deviceId := request.allowedDeviceId
  expiresAt := (notNone (envelope.get? "expires_at")).map fun _ => request.expiresAt

def associatedData (py : Interpreter) (requestId origin requestType : String)
    (deviceId : Option Json) (expiresAt : Option Double) : ByteArray :=
  let data : Dict :=
    [("request_id", .str requestId), ("origin", .str origin), ("request_type", .str requestType)] ++
      (deviceId.map fun d => ("device_id", d)).toList ++
      (expiresAt.map fun t => ("expires_at", Json.float t)).toList
  (Json.dumps py true (.obj data)).toByteArray

/-- `float(envelope.get("expires_at", "nan"))`. -/
def envelopeExpiry (envelope : Dict) : Except Error Double :=
  ((envelope.get? "expires_at").getD (.str "nan")).toFloat

/-- The three identifiers that every check compares. -/
def sameIds (envelope : Dict) (requestId origin requestType : String) : Bool :=
  Json.eqStr (envelope.get? "request_id") requestId && Json.eqStr (envelope.get? "origin") origin &&
    Json.eqStr (envelope.get? "request_type") requestType

def mismatch : Error := ⟨.valueError, "envelope associated data mismatch"⟩

/-- The checks that `decrypt_at_broker` and `decrypt_web_at_broker` make before they
decrypt. -/
def checkMetadata (envelope : Dict) (e : Expected) : Except Error Unit :=
  if !sameIds envelope e.requestId e.origin e.requestType then .error mismatch
  else if e.deviceId.any fun d => !Json.eqStr (envelope.get? "device_id") d then .error mismatch
  else
    match e.expiresAt with
    | none => .ok ()
    | some t =>
      match envelopeExpiry envelope with
      | .error err => .error err
      | .ok x => if x.eq (.fin t) then .ok () else .error mismatch

/-- The device and expiry that go into the associated data. -/
def aadFields (envelope : Dict) (e : Expected) : Except Error (Option Json × Option Double) :=
  let deviceId := (e.deviceId.map Json.str).or (notNone (envelope.get? "device_id"))
  match e.expiresAt, notNone (envelope.get? "expires_at") with
  | some t, _ => .ok (deviceId, some (.fin t))
  | none, some value => value.toFloat.map fun x => (deviceId, some x)
  | none, none => .ok (deviceId, none)

namespace ReplayGuard

/-- `str(envelope.get(key))`. -/
def field (py : Interpreter) (envelope : Dict) (key : String) : String :=
  ((envelope.get? key).getD .null).toStr py

def marker (py : Interpreter) (sha256 : ByteArray → ByteArray) (envelope : Dict) : String :=
  hexDigest sha256
    (field py envelope "request_id" ++ ":" ++ field py envelope "nonce" ++ ":" ++
      field py envelope "ciphertext")

/-- `check_and_mark` on the markers seen so far. -/
def checkAndMark (py : Interpreter) (sha256 : ByteArray → ByteArray) (envelope : Dict)
    (seen : List String) : Except Error (List String) :=
  if marker py sha256 envelope ∈ seen then .error ⟨.valueError, "replay detected"⟩
  else .ok (marker py sha256 envelope :: seen)

end ReplayGuard

/-- What decryption takes from outside. The two functions open an envelope under the given
associated data with the key pair of its version and parse the plaintext. -/
structure Channel where
  sha256 : ByteArray → ByteArray
  openWeb : Dict → ByteArray → Except Error Json
  openRaw : Dict → ByteArray → Except Error Json

/-- `_unb64(envelope[key])`. -/
def bytesOf (envelope : Dict) (key : String) : Except Error ByteArray :=
  match envelope.get? key with
  | none => .error ⟨.keyError, key⟩
  | some (.str data) => unb64 data
  | some .null => .error ⟨.typeError, "object of type 'NoneType' has no len()"⟩
  | some (.bool _) => .error ⟨.typeError, "object of type 'bool' has no len()"⟩
  | some (.int _) => .error ⟨.typeError, "object of type 'int' has no len()"⟩
  | some (.float _) => .error ⟨.typeError, "object of type 'float' has no len()"⟩
  | some (.arr _) => .error ⟨.typeError, "can only concatenate list (not \"str\") to list"⟩
  | some (.obj _) => .error ⟨.typeError, "unsupported operand type(s) for +: 'dict' and 'str'"⟩

/-- What opening an envelope takes from outside: the keys that the two versions derive from
the ephemeral public key of the envelope under the associated data, the decryption of
AES-GCM, and the parsing of the plaintext. -/
structure Cipher where
  sha256 : ByteArray → ByteArray
  webKey : Dict → ByteArray → Except Error ByteArray
  rawKey : Dict → ByteArray → Except Error ByteArray
  decrypt : (key nonce ciphertext aad : ByteArray) → Except Error ByteArray
  loads : ByteArray → Except Error Json

def Cipher.openWith (cipher : Cipher) (deriveKey : Dict → ByteArray → Except Error ByteArray)
    (envelope : Dict) (aad : ByteArray) : Except Error Json := do
  let key ← deriveKey envelope aad
  let nonce ← bytesOf envelope "nonce"
  let ciphertext ← bytesOf envelope "ciphertext"
  let plaintext ← cipher.decrypt key nonce ciphertext aad
  cipher.loads plaintext

def Cipher.channel (cipher : Cipher) : Channel where
  sha256 := cipher.sha256
  openWeb := cipher.openWith cipher.webKey
  openRaw := cipher.openWith cipher.rawKey

/-- The common body of `decrypt_at_broker` and `decrypt_web_at_broker`. The marker of the
envelope is kept when decryption fails; without a guard there is nothing to keep. -/
def decryptWith (py : Interpreter) (sha256 : ByteArray → ByteArray)
    (openEnvelope : Dict → ByteArray → Except Error Json) (envelope : Dict) (e : Expected)
    (seen : Option (List String)) : Except Error Json × Option (List String) :=
  match checkMetadata envelope e with
  | .error err => (.error err, seen)
  | .ok () =>
    match aadFields envelope e with
    | .error err => (.error err, seen)
    | .ok (deviceId, expiresAt) =>
      let aad := associatedData py e.requestId e.origin e.requestType deviceId expiresAt
      match seen with
      | none => (openEnvelope envelope aad, none)
      | some markers =>
        match ReplayGuard.checkAndMark py sha256 envelope markers with
        | .error err => (.error err, some markers)
        | .ok markers => (openEnvelope envelope aad, some markers)

def decryptControlEnvelope (py : Interpreter) (channel : Channel) (envelope : Dict) (e : Expected)
    (seen : Option (List String)) : Except Error Json × Option (List String) :=
  if Json.eqStr (envelope.get? "version") "web-p256-v1" then
    decryptWith py channel.sha256 channel.openWeb envelope e seen
  else decryptWith py channel.sha256 channel.openRaw envelope e seen

end OmniDoer.SecureChannel
