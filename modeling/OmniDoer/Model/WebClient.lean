import OmniDoer.Library.DecimalText
import OmniDoer.Model.SecureChannel

/-! # The browser's side of the channel

The model of `stableAssociatedData` and `encryptForBroker` in `static/app.js`. The digits
of a number and the encryption itself are parameters. -/

namespace OmniDoer.WebClient

open Py

inductive Value where
  | str (s : String)
  | num (x : Double)

/-- The JSON text of a number; what is not finite becomes `null`. -/
def numberText (shortest : ℚ → Decimal) : Double → List Char
  | .nan | .inf _ => "null".toList
  | .fin q =>
    if q = 0 then ['0']
    else if q < 0 then '-' :: (shortest (-q)).javascriptText
    else (shortest q).javascriptText

/-- `JSON.stringify` of a string or a number. No character above the control characters
is escaped. -/
def Value.text (shortest : ℚ → Decimal) : Value → List Char
  | .str s => quote false s
  | .num x => numberText shortest x

/-- `JSON.stringify` of an object, in the order in which its keys were added. -/
def stringify (shortest : ℚ → Decimal) (members : List (String × Value)) : String :=
  String.ofList
    ('\x7b' :: joinItems '\x7d' (members.map fun m => memberText false (m.1, m.2.text shortest)))

/-- The truth value of a number. -/
def truthyNumber : Double → Bool
  | .nan => false
  | .inf _ => true
  | .fin q => q != 0

/-- The fields of a request that go into the associated data. -/
structure AadRequest where
  origin : String
  requestId : String
  requestType : String
  deviceId : Option String
  expiresAt : Option Double

def stableAssociatedData (shortest : ℚ → Decimal) (request : AadRequest) : ByteArray :=
  let data : List (String × Value) :=
    [("origin", .str request.origin), ("request_id", .str request.requestId),
      ("request_type", .str request.requestType)] ++
      ((request.deviceId.filter (· != "")).map fun d => ("device_id", .str d)).toList ++
      ((request.expiresAt.filter truthyNumber).map fun t => ("expires_at", .num t)).toList
  (stringify shortest (sortKeys data)).toByteArray

/-- What one encryption gives: the ephemeral public key, the nonce and the ciphertext. -/
structure Sealed where
  ephemeralPublicJwk : Json
  nonce : ByteArray
  ciphertext : ByteArray

/-- The envelope of `encryptForBroker` as the server reads it. The payload is sealed
under the associated data of the request; `expiry` is what the server reads for the
number in `expires_at`. -/
def encryptForBroker (shortest : ℚ → Decimal) (sealPayload : Json → ByteArray → Sealed)
    (payload : Json) (request : AadRequest) (expiry : Json) : Dict :=
  let parts := sealPayload payload (stableAssociatedData shortest request)
  [("version", .str "web-p256-v1"), ("ephemeral_public_jwk", parts.ephemeralPublicJwk),
    ("nonce", .str (SecureChannel.b64 parts.nonce)),
    ("ciphertext", .str (SecureChannel.b64 parts.ciphertext)),
    ("request_id", .str request.requestId), ("origin", .str request.origin),
    ("request_type", .str request.requestType)] ++
    (request.deviceId.map fun d => ("device_id", Json.str d)).toList ++
    (request.expiresAt.map fun _ => ("expires_at", expiry)).toList

end OmniDoer.WebClient
