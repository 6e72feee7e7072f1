import OmniDoer.Library.Program
import OmniDoer.Library.ExpiringSet
import OmniDoer.Library.PyHash
import Mathlib.Data.Rat.Defs

/-! # Devices, sessions and signed requests

The model of `omni_control/devices.py`, `sessions.py`, `device_signing.py` and `auth.py`.
A locked section of a state file is one atomic operation. Times and their sums and
differences are exact. -/

namespace OmniDoer.Auth

open Py Effects Tables

structure Device where
  deviceId : String
  name : String
  publicKey : String
  fingerprint : String
  revoked : Bool
  createdAt : ℚ
  lastSeenAt : Option ℚ
  deriving DecidableEq, Repr

structure ControlSession where
  sessionId : String
  deviceId : String
  tokenHash : String
  csrfToken : String
  expiresAt : ℚ
  revoked : Bool
  createdAt : ℚ
  lastSeenAt : Option ℚ
  deriving DecidableEq, Repr

/-- `is_expired` at a given reading of the clock. -/
def ControlSession.isExpired (session : ControlSession) (now : ℚ) : Bool :=
  decide (session.expiresAt < now)

abbrev NonceTable := ExpiringSet String ℚ

def controlSessionTtlSeconds : ℚ := 10 * 365 * 24 * 60 * 60

def controlSessionRefreshWindowSeconds : ℚ := 365 * 24 * 60 * 60

/-- `tick` counts the readings of the clock that have been made. -/
structure World where
  devices : Table Device.deviceId
  sessions : Table ControlSession.sessionId
  nonces : NonceTable
  tick : ℕ

def World.empty : World := ⟨.empty, .empty, .empty, 0⟩

/-- What the program takes from outside: the hash, and the check of a signature against
a public key, which fails with the exception it raises. -/
structure Crypto where
  sha256 : ByteArray → ByteArray
  verifyEcdsaSignature : (publicKey signature : String) → (message : ByteArray) → Except Error Unit

def permissionError {α : Type} (message : String) : Except Error α :=
  .error ⟨.permissionError, message⟩

/-- The arguments of `DeviceNonceStore.consume`. -/
structure ConsumeArgs where
  deviceId : String
  nonce : String
  timestamp : String
  now : Option ℚ := none
  skewSeconds : ℤ := 300
  deriving DecidableEq, Repr

/-- `abs(now - ts) > skew_seconds`, which is false for a timestamp that is not a number. -/
def outsideWindow (now : ℚ) (ts : Double) (skewSeconds : ℤ) : Bool :=
  match ts with
  | .nan => false
  | .inf _ => true
  | .fin q => decide ((skewSeconds : ℚ) < |now - q|)

def ConsumeArgs.key (args : ConsumeArgs) : String := args.deviceId ++ ":" ++ args.nonce

/-- The body of `DeviceNonceStore.consume` at the time it goes by: the table it saves, or
the exception it raises before it saves. -/
def consumeAt (now : ℚ) (args : ConsumeArgs) (nonces : NonceTable) : Except Error NonceTable :=
  match floatOfString args.timestamp with
  | none => permissionError "invalid device timestamp"
  | some ts =>
    if outsideWindow now ts args.skewSeconds then
      permissionError "device signature timestamp outside allowed window"
    else
      let live := nonces.live now
      if (live.lookup args.key).isSome then permissionError "device signature nonce replayed"
      else .ok (live.insert ⟨args.key, now + args.skewSeconds⟩)

/-- `now or time.time()`, with the number of readings made so far. -/
def nowOrTime (clock : ℕ → ℚ) (now : Option ℚ) (tick : ℕ) : ℚ × ℕ :=
  match now with
  | some now => if now = 0 then (clock tick, tick + 1) else (now, tick)
  | none => (clock tick, tick + 1)

/-- What `touch` and `authenticate` write into a session that passed their checks. -/
def ControlSession.seenAt (session : ControlSession) (now : ℚ) : ControlSession :=
  { session with
    lastSeenAt := some now
    expiresAt :=
      if session.expiresAt < now + controlSessionRefreshWindowSeconds then
        now + controlSessionTtlSeconds
      else session.expiresAt }

/-- `session.revoked or session.is_expired()`; the clock is read only for a session that
is not revoked. -/
def unusable (clock : ℕ → ℚ) (session : ControlSession) (tick : ℕ) : Bool × ℕ :=
  if session.revoked then (true, tick) else (session.isExpired (clock tick), tick + 1)

/-- A locked section of the session file that looks one session up, rejects it when it
is revoked or expired, makes the check and records when the session was seen. -/
def seeSession (clock : ℕ → ℚ) (sessionId : String) (check : ControlSession → Except Error Unit)
    (w : World) : Except Error ControlSession × World :=
  match w.sessions.lookup sessionId with
  | none => (permissionError "session not found", w)
  | some session =>
    let (rejected, tick) := unusable clock session w.tick
    if rejected then
      (permissionError "session expired or revoked", { w with tick := tick })
    else
      match check session with
      | .error e => (.error e, { w with tick := tick })
      | .ok () =>
        let session := session.seenAt (clock tick)
        (.ok session, { w with sessions := w.sessions.insert session, tick := tick + 1 })

def hashSessionToken (crypto : Crypto) (token : String) : String := hexDigest crypto.sha256 token

/-- The colon-separated first half of the digest of the public key. -/
def deviceFingerprint (crypto : Crypto) (publicKey : String) : String :=
  let digits := (hexDigest crypto.sha256 publicKey).toList.take 32
  ":".intercalate ((List.range 16).map fun i => String.ofList ((digits.drop (2 * i)).take 2))

inductive AuthOp where
  | time
  | loadDevices
  | registerLocked (deviceId name publicKey : String)
  | touchDeviceLocked (deviceId : String)
  | revokeDeviceLocked (deviceId : String)
  | loadSessions
  | createSessionLocked (sessionId token csrfToken deviceId : String) (ttlSeconds : ℚ)
  | touchSessionLocked (sessionId : String)
  | authenticateLocked (sessionId token : String)
  | revokeSessionLocked (sessionId : String)
  | revokeForDeviceLocked (deviceId : String)
  | consumeLocked (args : ConsumeArgs)

/-- A consumed nonce is answered together with the time the section went by. -/
@[reducible] def AuthOp.Ans : AuthOp → Type
  | .time => ℚ
  | .loadDevices => Table Device.deviceId
  | .registerLocked .. => Device
  | .touchDeviceLocked _ => Except Error Device
  | .revokeDeviceLocked _ => Except Error Device
  | .loadSessions => Table ControlSession.sessionId
  | .createSessionLocked .. => ControlSession
  | .touchSessionLocked _ => Except Error ControlSession
  | .authenticateLocked .. => Except Error ControlSession
  | .revokeSessionLocked _ => Except Error ControlSession
  | .revokeForDeviceLocked _ => List ControlSession
  | .consumeLocked _ => ℚ × Except Error Unit

/-- `revoke_for_device` on one session of the file. -/
def revokeIfOwned (deviceId : String) (session : ControlSession) (revoked : List ControlSession) :
    ControlSession × List ControlSession :=
  if session.deviceId = deviceId ∧ session.revoked = false then
    ({ session with revoked := true }, revoked ++ [{ session with revoked := true }])
  else (session, revoked)

theorem revokeIfOwned_sessionId (deviceId : String) (session : ControlSession)
    (revoked : List ControlSession) :
    (revokeIfOwned deviceId session revoked).1.sessionId = session.sessionId := by
  unfold revokeIfOwned
  split <;> rfl

/-- The clock answers its `n`-th reading with `clock n`. -/
def exec (crypto : Crypto) (clock : ℕ → ℚ) : (o : AuthOp) → World → o.Ans × World
  | .time, w => (clock w.tick, { w with tick := w.tick + 1 })
  | .loadDevices, w => (w.devices, w)
  | .registerLocked deviceId name publicKey, w =>
    let stripped := strip name
    let device : Device :=
      { deviceId := deviceId
        name := if stripped = "" then "Control Client" else stripped
        publicKey := publicKey
        fingerprint := deviceFingerprint crypto publicKey
        revoked := false
        createdAt := clock w.tick
        lastSeenAt := none }
    (device, { w with devices := w.devices.insert device, tick := w.tick + 1 })
  | .touchDeviceLocked deviceId, w =>
    match w.devices.lookup deviceId with
    | none => (.error ⟨.keyError, deviceId⟩, w)
    | some device =>
      if device.revoked then (permissionError "device revoked", w)
      else
        let device := { device with lastSeenAt := some (clock w.tick) }
        (.ok device, { w with devices := w.devices.insert device, tick := w.tick + 1 })
  | .revokeDeviceLocked deviceId, w =>
    match w.devices.lookup deviceId with
    | none => (.error ⟨.keyError, deviceId⟩, w)
    | some device =>
      let device := { device with revoked := true }
      (.ok device, { w with devices := w.devices.insert device })
  | .loadSessions, w => (w.sessions, w)
  | .createSessionLocked sessionId token csrfToken deviceId ttlSeconds, w =>
    let session : ControlSession :=
      { sessionId := sessionId
        deviceId := deviceId
        tokenHash := hashSessionToken crypto token
        csrfToken := csrfToken
        expiresAt := clock w.tick + ttlSeconds
        revoked := false
        createdAt := clock (w.tick + 1)
        lastSeenAt := none }
    (session, { w with sessions := w.sessions.insert session, tick := w.tick + 2 })
  | .touchSessionLocked sessionId, w => seeSession clock sessionId (fun _ => .ok ()) w
  | .authenticateLocked sessionId token, w =>
    seeSession clock sessionId (fun session =>
        if session.tokenHash ≠ hashSessionToken crypto token then
          permissionError "session token mismatch"
        else .ok ())
      w
  | .revokeSessionLocked sessionId, w =>
    match w.sessions.lookup sessionId with
    | none => (.error ⟨.keyError, sessionId⟩, w)
    | some session =>
      let session := { session with revoked := true }
      (.ok session, { w with sessions := w.sessions.insert session })
  | .revokeForDeviceLocked deviceId, w =>
    let (sessions, revoked) :=
      w.sessions.mapAccum (revokeIfOwned deviceId) (revokeIfOwned_sessionId deviceId) []
    (revoked, { w with sessions := sessions })
  | .consumeLocked args, w =>
    let (now, tick) := nowOrTime clock args.now w.tick
    match consumeAt now args w.nonces with
    | .ok nonces => ((now, .ok ()), { w with nonces := nonces, tick := tick })
    | .error e => ((now, .error e), { w with tick := tick })

abbrev AuthProg (α : Type) := Prog AuthOp AuthOp.Ans Error α

namespace DeviceStore

def get (deviceId : String) : AuthProg Device :=
  .op .loadDevices fun devices =>
    match devices.lookup deviceId with
    | some device => .pure device
    | none => .raise ⟨.keyError, "device not found: " ++ deviceId⟩

def touch (deviceId : String) : AuthProg Device := .op (.touchDeviceLocked deviceId) .ofExcept

def revoke (deviceId : String) : AuthProg Device := .op (.revokeDeviceLocked deviceId) .ofExcept

def register (deviceId name publicKey : String) : AuthProg Device :=
  .op (.registerLocked deviceId name publicKey) .pure

end DeviceStore

namespace SessionStore

def get (sessionId : String) : AuthProg ControlSession :=
  .op .loadSessions fun sessions =>
    match sessions.lookup sessionId with
    | some session => .pure session
    | none => .ofExcept (permissionError "session not found")

def create (sessionId token csrfToken deviceId : String)
    (ttlSeconds : ℚ := controlSessionTtlSeconds) : AuthProg ControlSession :=
  .op (.createSessionLocked sessionId token csrfToken deviceId ttlSeconds) .pure

def touch (sessionId : String) : AuthProg ControlSession :=
  .op (.touchSessionLocked sessionId) .ofExcept

def authenticate (sessionId token : String) : AuthProg ControlSession :=
  .op (.authenticateLocked sessionId token) .ofExcept

def revoke (sessionId : String) : AuthProg ControlSession :=
  .op (.revokeSessionLocked sessionId) .ofExcept

def revokeForDevice (deviceId : String) : AuthProg (List ControlSession) :=
  .op (.revokeForDeviceLocked deviceId) .pure

end SessionStore

namespace DeviceNonceStore

def consume (args : ConsumeArgs) : AuthProg Unit :=
  .op (.consumeLocked args) fun x => .ofExcept x.2

end DeviceNonceStore

def authenticateSession (sessionId sessionToken : String) : AuthProg ControlSession := do
  let session ← SessionStore.authenticate sessionId sessionToken
  let _ ← DeviceStore.touch session.deviceId
  return session

/-- The arguments of `authenticate_signed_session_request`. -/
structure SignedRequest where
  sessionId : String
  sessionToken : String
  deviceId : String
  method : String
  path : String
  timestamp : String
  nonce : String
  signature : String
  allowMissingSessionToken : Bool := false
  deriving DecidableEq, Repr

namespace SignedRequest

/-- The lines of `device_signature_message`. -/
def lines (u : UnicodeData) (r : SignedRequest) : List String :=
  ["omnidoer-device-v1", r.deviceId, r.sessionId, u.upper r.method, r.path, r.timestamp, r.nonce]

def deviceSignatureMessage (u : UnicodeData) (r : SignedRequest) : ByteArray :=
  ("\n".intercalate (r.lines u)).toByteArray

def consumeArgs (r : SignedRequest) : ConsumeArgs where
  deviceId := r.deviceId
  nonce := r.nonce
  timestamp := r.timestamp

/-- The session of the request: by its token, or without one where that is allowed. -/
def session (r : SignedRequest) : AuthProg ControlSession :=
  if r.sessionToken ≠ "" then authenticateSession r.sessionId r.sessionToken
  else if r.allowMissingSessionToken then do
    let session ← SessionStore.get r.sessionId
    if session.revoked then .ofExcept (permissionError "session expired or revoked")
    else
      .op .time fun now =>
        if session.isExpired now then .ofExcept (permissionError "session expired or revoked")
        else .pure session
  else .ofExcept (permissionError "session required")

end SignedRequest

def authenticateSignedSessionRequest (u : UnicodeData) (crypto : Crypto) (r : SignedRequest) :
    AuthProg ControlSession := do
  let session ← r.session
  if session.deviceId ≠ r.deviceId then
    .ofExcept (permissionError "device does not own session")
  else
    let device ← DeviceStore.get r.deviceId
    Prog.ofExcept
      (crypto.verifyEcdsaSignature device.publicKey r.signature (r.deviceSignatureMessage u))
    DeviceNonceStore.consume r.consumeArgs
    if r.sessionToken = "" then
      let session ← SessionStore.touch r.sessionId
      let _ ← DeviceStore.touch session.deviceId
      return session
    else return session

/-- What a thread of the control service may do to the three stores. -/
inductive AuthCall where
  | register (deviceId name publicKey : String)
  | revokeDevice (deviceId : String)
  | createSession (sessionId token csrfToken deviceId : String) (ttlSeconds : ℚ)
  | revokeSession (sessionId : String)
  | revokeForDevice (deviceId : String)
  | authenticateSession (sessionId sessionToken : String)
  | consume (args : ConsumeArgs)
  | authenticateSigned (r : SignedRequest)

def AuthCall.prog (u : UnicodeData) (crypto : Crypto) : AuthCall → AuthProg Unit
  | .register deviceId name publicKey =>
    (fun _ => ()) <$> DeviceStore.register deviceId name publicKey
  | .revokeDevice deviceId => (fun _ => ()) <$> DeviceStore.revoke deviceId
  | .createSession sessionId token csrfToken deviceId ttlSeconds =>
    (fun _ => ()) <$> SessionStore.create sessionId token csrfToken deviceId ttlSeconds
  | .revokeSession sessionId => (fun _ => ()) <$> SessionStore.revoke sessionId
  | .revokeForDevice deviceId => (fun _ => ()) <$> SessionStore.revokeForDevice deviceId
  | .authenticateSession sessionId sessionToken =>
    (fun _ => ()) <$> Auth.authenticateSession sessionId sessionToken
  | .consume args => DeviceNonceStore.consume args
  | .authenticateSigned r => (fun _ => ()) <$> authenticateSignedSessionRequest u crypto r

end OmniDoer.Auth
