import OmniDoer.Verification.Auth.SignatureOnce
import Mathlib.Tactic.Linarith

/-! # What a signed request establishes and what it leaves behind

A request is authenticated only by a usable session of an unrevoked device that signed
it. With a token the session is refreshed first and the device, the signature and the
nonce are checked afterwards; without one the session is refreshed last, just before the
device is found to be revoked or not. -/

namespace OmniDoer.Auth

open Py Effects Tables Option Table

/-- For each session when it expires and whether it is revoked, and for each device
whether it is revoked. -/
def World.access (w : World) : (String → Option (ℚ × Bool)) × (String → Option Bool) :=
  (fun id => (w.sessions.lookup id).map fun session => (session.expiresAt, session.revoked),
    fun id => (w.devices.lookup id).map Device.revoked)

/-- A session that is seen now is given a new date of expiry. -/
def ControlSession.RefreshDue (session : ControlSession) (now : ℚ) : Prop :=
  session.expiresAt < now + controlSessionRefreshWindowSeconds

instance (session : ControlSession) (now : ℚ) : Decidable (session.RefreshDue now) :=
  inferInstanceAs (Decidable (_ < _))

theorem ControlSession.seenAt_expiresAt_eq_iff (session : ControlSession) (now : ℚ) :
    (session.seenAt now).expiresAt = session.expiresAt ↔ ¬ session.RefreshDue now := by
  unfold seenAt RefreshDue
  split
  · rename_i hdue
    -- the new date lies beyond the refresh window and the old one within it
    have hlater : now + controlSessionRefreshWindowSeconds < now + controlSessionTtlSeconds := by
      unfold controlSessionRefreshWindowSeconds controlSessionTtlSeconds
      linarith
    exact iff_of_false (hdue.trans hlater).ne' (not_not_intro hdue)
  · rename_i hdue
    exact iff_of_true rfl hdue

section Writes

variable (clock : ℕ → ℚ) (w : World)

/-- The session was found usable at one reading of the clock and seen at the next. -/
def World.seen (session : ControlSession) : World :=
  { w with
    sessions := w.sessions.insert (session.seenAt (clock (w.tick + 1)))
    tick := w.tick + 2 }

def World.touched (device : Device) : World :=
  { w with
    devices := w.devices.insert { device with lastSeenAt := some (clock w.tick) }
    tick := w.tick + 1 }

variable {clock w}

theorem access_seen_iff {sessionId : String} {session : ControlSession}
    (hfound : w.sessions.lookup sessionId = some session) :
    (w.seen clock session).access = w.access ↔ ¬ session.RefreshDue (clock (w.tick + 1)) := by
  have hid : session.sessionId = sessionId := key_of_lookup hfound
  rw [← session.seenAt_expiresAt_eq_iff]
  constructor
  · intro h
    have hat := congrFun (congrArg Prod.fst h) sessionId
    have hlookup : (w.seen clock session).sessions.lookup sessionId =
        some (session.seenAt (clock (w.tick + 1))) := by
      rw [← hid]
      exact lookup_insert_self w.sessions (session.seenAt (clock (w.tick + 1)))
    simp only [World.access, hlookup, hfound, map_some, some.injEq, Prod.mk.injEq] at hat
    exact hat.1
  · intro h
    refine Prod.ext (funext fun id => ?_) rfl
    simp only [World.access, World.seen, lookup_insert]
    split
    · rename_i he
      change id = session.sessionId at he
      rw [he, hid, hfound, map_some, h]
      rfl
    · rfl

theorem access_touched {deviceId : String} {device : Device}
    (hfound : w.devices.lookup deviceId = some device) :
    (w.touched clock device).access = w.access := by
  have hid : device.deviceId = deviceId := key_of_lookup hfound
  refine Prod.ext rfl (funext fun id => ?_)
  simp only [World.access, World.touched, lookup_insert]
  split
  · rename_i he
    rw [he, hid, hfound, map_some, map_some]
  · rfl

end Writes

/-- The session is in the file, not revoked, and not expired at the next reading of the
clock. -/
structure Usable (clock : ℕ → ℚ) (w : World) (sessionId : String) (session : ControlSession) :
    Prop where
  found : w.sessions.lookup sessionId = some session
  notRevoked : session.revoked = false
  notExpired : session.isExpired (clock w.tick) = false

theorem Usable.unique {clock : ℕ → ℚ} {w : World} {sessionId : String}
    {session session' : ControlSession} (h : Usable clock w sessionId session)
    (h' : Usable clock w sessionId session') : session' = session :=
  some.inj (h'.found.symm.trans h.found)

section Stages

variable {u : UnicodeData} {crypto : Crypto} {clock : ℕ → ℚ}

variable (w : World)

theorem seeSession_cases (clock : ℕ → ℚ) (sessionId : String)
    (check : ControlSession → Except Error Unit) :
    (∃ session, Usable clock w sessionId session ∧ check session = .ok () ∧
      seeSession clock sessionId check w =
        (.ok (session.seenAt (clock (w.tick + 1))), w.seen clock session)) ∨
    ∃ e tick, (∀ session, Usable clock w sessionId session → check session ≠ .ok ()) ∧
      seeSession clock sessionId check w = (.error e, { w with tick := tick }) := by
  unfold seeSession unusable
  cases hfound : w.sessions.lookup sessionId with
  | none =>
    refine .inr ⟨_, w.tick, fun session h => ?_, rfl⟩
    exact nomatch hfound.symm.trans h.found
  | some session =>
    -- whatever rejects the session rejects the only one with this id
    have honly : ∀ session', Usable clock w sessionId session' → session' = session :=
      fun _ h => some.inj (h.found.symm.trans hfound)
    by_cases hrevoked : session.revoked = true
    · refine .inr ⟨_, w.tick, fun session' h => ?_, by simp only [hrevoked]; rfl⟩
      exact nomatch (honly session' h ▸ h.notRevoked).symm.trans hrevoked
    rw [Bool.not_eq_true] at hrevoked
    by_cases hexpired : session.isExpired (clock w.tick) = true
    · refine .inr ⟨_, w.tick + 1, fun session' h => ?_, by simp [hrevoked, hexpired]; rfl⟩
      exact nomatch (honly session' h ▸ h.notExpired).symm.trans hexpired
    rw [Bool.not_eq_true] at hexpired
    cases hcheck : check session with
    | error e =>
      refine .inr ⟨e, w.tick + 1, fun session' h hok => ?_, by simp [hrevoked, hexpired, hcheck]⟩
      exact nomatch (honly session' h ▸ hok).symm.trans hcheck
    | ok =>
      exact .inl ⟨session, ⟨hfound, hrevoked, hexpired⟩, hcheck,
        by simp [hrevoked, hexpired, hcheck, World.seen]⟩

theorem touchDevice_cases (crypto : Crypto) (clock : ℕ → ℚ) (deviceId : String) :
    (∃ device, w.devices.lookup deviceId = some device ∧ device.revoked = false ∧
      (DeviceStore.touch deviceId).run (exec crypto clock) w =
        (.ok { device with lastSeenAt := some (clock w.tick) }, w.touched clock device)) ∨
    ∃ e, (∀ device, w.devices.lookup deviceId = some device → device.revoked = true) ∧
      (DeviceStore.touch deviceId).run (exec crypto clock) w = (.error e, w) := by
  unfold DeviceStore.touch
  rw [Prog.run_op]
  simp only [exec]
  cases hfound : w.devices.lookup deviceId with
  | none =>
    refine .inr ⟨⟨.keyError, deviceId⟩, ?_, rfl⟩
    rintro _ ⟨⟩
  | some device =>
    cases hrevoked : device.revoked with
    | true =>
      refine .inr ⟨⟨.permissionError, "device revoked"⟩, ?_, by simp [hrevoked, permissionError]⟩
      rintro _ ⟨rfl⟩
      exact hrevoked
    | false => exact .inl ⟨device, rfl, hrevoked, by simp [hrevoked, World.touched]⟩

/-- What is asked of the session, the device and the request once the session has been
accepted. -/
structure SignedRequest.Vouched (u : UnicodeData) (crypto : Crypto) (r : SignedRequest) (w : World)
    (now : ℚ) (session : ControlSession) (device : Device) : Prop where
  owns : session.deviceId = r.deviceId
  known : w.devices.lookup r.deviceId = some device
  signature :
    crypto.verifyEcdsaSignature device.publicKey r.signature (r.deviceSignatureMessage u) = .ok ()
  nonce : ∃ nonces, consumeAt now r.consumeArgs w.nonces = .ok nonces

/-- The checks between the acceptance of the session and its last use. -/
def SignedRequest.vouch (u : UnicodeData) (crypto : Crypto) (r : SignedRequest)
    (session : ControlSession) : AuthProg Unit :=
  if session.deviceId ≠ r.deviceId then .ofExcept (permissionError "device does not own session")
  else do
    let device ← DeviceStore.get r.deviceId
    Prog.ofExcept
      (crypto.verifyEcdsaSignature device.publicKey r.signature (r.deviceSignatureMessage u))
    DeviceNonceStore.consume r.consumeArgs

variable (r : SignedRequest)

theorem authenticateSigned_eq (u : UnicodeData) (crypto : Crypto) :
    authenticateSignedSessionRequest u crypto r =
      (r.session >>= fun session => r.vouch u crypto session >>= fun _ =>
        if r.sessionToken = "" then do
          let session ← SessionStore.touch r.sessionId
          let _ ← DeviceStore.touch session.deviceId
          return session
        else return session) := by
  unfold authenticateSignedSessionRequest SignedRequest.vouch
  congr 1
  funext session
  split
  · rfl
  · rw [Prog.bind_assoc]
    congr 1
    funext device
    rw [Prog.bind_assoc]

theorem run_consume (crypto : Crypto) (clock : ℕ → ℚ) :
    (DeviceNonceStore.consume r.consumeArgs).run (exec crypto clock) w =
      match consumeAt (clock w.tick) r.consumeArgs w.nonces with
      | .ok nonces => (.ok (), { w with nonces := nonces, tick := w.tick + 1 })
      | .error e => (.error e, { w with tick := w.tick + 1 }) := by
  unfold DeviceNonceStore.consume
  rw [Prog.run_op]
  simp only [exec, nowOrTime, SignedRequest.consumeArgs]
  cases consumeAt (clock w.tick) ⟨r.deviceId, r.nonce, r.timestamp, none, 300⟩ w.nonces <;> rfl

theorem vouch_cases (u : UnicodeData) (crypto : Crypto) (clock : ℕ → ℚ) (session : ControlSession) :
    (∃ device nonces, r.Vouched u crypto w (clock w.tick) session device ∧
      (r.vouch u crypto session).run (exec crypto clock) w =
        (.ok (), { w with nonces := nonces, tick := w.tick + 1 })) ∨
    ∃ e tick, (∀ device, ¬ r.Vouched u crypto w (clock w.tick) session device) ∧
      (r.vouch u crypto session).run (exec crypto clock) w =
        (.error e, { w with tick := tick }) := by
  unfold SignedRequest.vouch
  by_cases howns : session.deviceId = r.deviceId
  swap
  · rw [if_pos howns]
    exact .inr ⟨_, w.tick, fun device h => howns h.owns, rfl⟩
  rw [if_neg (not_not_intro howns)]
  cases hdevice : w.devices.lookup r.deviceId with
  | none =>
    have hget : (DeviceStore.get r.deviceId).run (exec crypto clock) w =
        (.error ⟨.keyError, "device not found: " ++ r.deviceId⟩, w) := by
      simp [DeviceStore.get, exec, hdevice]
    rw [Prog.run_bind_error hget]
    exact .inr ⟨_, w.tick, fun device h => (by cases hdevice.symm.trans h.known), rfl⟩
  | some device =>
    have honly : ∀ device', r.Vouched u crypto w (clock w.tick) session device' →
        device' = device := fun _ h => some.inj (h.known.symm.trans hdevice)
    have hget : (DeviceStore.get r.deviceId).run (exec crypto clock) w = (.ok device, w) := by
      simp [DeviceStore.get, exec, hdevice]
    rw [Prog.run_bind_ok hget]
    cases hsignature : crypto.verifyEcdsaSignature device.publicKey r.signature
        (r.deviceSignatureMessage u) with
    | error e =>
      refine .inr ⟨e, w.tick, fun device' h => ?_, rfl⟩
      cases (honly device' h ▸ h.signature).symm.trans hsignature
    | ok =>
      change (∃ device nonces, _ ∧ (DeviceNonceStore.consume r.consumeArgs).run _ w = _) ∨
        ∃ e tick, _ ∧ (DeviceNonceStore.consume r.consumeArgs).run _ w = _
      rw [run_consume]
      cases hnonce : consumeAt (clock w.tick) r.consumeArgs w.nonces with
      | error e =>
        refine .inr ⟨e, w.tick + 1, fun device' h => ?_, rfl⟩
        obtain ⟨nonces, hok⟩ := h.nonce
        cases hok.symm.trans hnonce
      | ok nonces =>
        exact .inl ⟨device, nonces, ⟨howns, hdevice, hsignature, nonces, hnonce⟩, rfl⟩

variable {r : SignedRequest} {session : ControlSession}

theorem vouched_touched_iff {w : World} {now : ℚ} {device : Device}
    (hfound : w.devices.lookup session.deviceId = some device) :
    (∃ touched, r.Vouched u crypto (w.touched clock device) now session touched) ↔
      r.Vouched u crypto w now session device := by
  have hlookup (howns : session.deviceId = r.deviceId) :
      (w.touched clock device).devices.lookup r.deviceId =
      some { device with lastSeenAt := some (clock w.tick) } := by
    rw [← howns, ← key_of_lookup hfound]
    exact lookup_insert_self w.devices { device with lastSeenAt := some (clock w.tick) }
  constructor
  · rintro ⟨touched, h⟩
    obtain rfl := some.inj (h.known.symm.trans (hlookup h.owns))
    exact ⟨h.owns, h.owns ▸ hfound, h.signature, h.nonce⟩
  · intro h
    exact ⟨_, h.owns, hlookup h.owns, h.signature, h.nonce⟩

theorem token_check_iff {crypto : Crypto} {token : String} :
    (if session.tokenHash ≠ hashSessionToken crypto token then
      permissionError "session token mismatch" else Except.ok ()) = .ok () ↔
      session.tokenHash = hashSessionToken crypto token := by
  split
  · rename_i h
    exact iff_of_false (fun h => nomatch h) h
  · rename_i h
    exact iff_of_true rfl (not_not.1 h)

theorem tokenless_session_cases (crypto : Crypto) (clock : ℕ → ℚ) (htoken : r.sessionToken = "") :
    (∃ session, r.allowMissingSessionToken = true ∧ Usable clock w r.sessionId session ∧
      r.session.run (exec crypto clock) w = (.ok session, { w with tick := w.tick + 1 })) ∨
    ∃ e tick, (r.allowMissingSessionToken = true →
        ∀ session, ¬ Usable clock w r.sessionId session) ∧
      r.session.run (exec crypto clock) w = (.error e, { w with tick := tick }) := by
  unfold SignedRequest.session
  rw [if_neg (not_not_intro htoken)]
  cases hallow : r.allowMissingSessionToken with
  | false => exact .inr ⟨_, w.tick, fun h => (by cases h), rfl⟩
  | true =>
    rw [if_pos rfl]
    cases hfound : w.sessions.lookup r.sessionId with
    | none =>
      have hget : (SessionStore.get r.sessionId).run (exec crypto clock) w =
          (permissionError "session not found", w) := by
        simp [SessionStore.get, exec, hfound]
      rw [Prog.run_bind_error hget]
      exact .inr ⟨_, w.tick, fun _ session h => (by cases hfound.symm.trans h.found), rfl⟩
    | some session =>
      have hget : (SessionStore.get r.sessionId).run (exec crypto clock) w = (.ok session, w) := by
        simp [SessionStore.get, exec, hfound]
      have honly : ∀ session', Usable clock w r.sessionId session' → session' = session :=
        fun _ h => some.inj (h.found.symm.trans hfound)
      rw [Prog.run_bind_ok hget]
      cases hrevoked : session.revoked with
      | true =>
        refine .inr ⟨_, w.tick, fun _ session' h => ?_, rfl⟩
        cases (honly session' h ▸ h.notRevoked).symm.trans hrevoked
      | false =>
        cases hexpired : session.isExpired (clock w.tick) with
        | true =>
          refine .inr ⟨⟨.permissionError, "session expired or revoked"⟩, w.tick + 1,
            fun _ session' h => ?_, by simp [exec, hexpired]; rfl⟩
          cases (honly session' h ▸ h.notExpired).symm.trans hexpired
        | false =>
          exact .inl ⟨session, rfl, ⟨hfound, hrevoked, hexpired⟩, by simp [exec, hexpired]⟩

end Stages

/-- A public key vouches only for what its device signed: one line for each part. -/
structure Unforgeable (crypto : Crypto) (signed : String → List String → Prop) : Prop where
  verified : ∀ publicKey signature message,
    crypto.verifyEcdsaSignature publicKey signature message = .ok () →
      ∃ parts, signed publicKey parts ∧ message = ("\n".intercalate parts).toByteArray
  nonempty : ∀ publicKey parts, signed publicKey parts → parts ≠ []
  singleLines : ∀ publicKey parts, signed publicKey parts → ∀ s ∈ parts, '\n' ∉ s.toList

/-- Everything an authenticated request stands for. -/
structure SignedRequest.Authentic (u : UnicodeData) (crypto : Crypto) (clock : ℕ → ℚ)
    (signed : String → List String → Prop) (r : SignedRequest) (w : World)
    (session : ControlSession) (device : Device) : Prop where
  usable : Usable clock w r.sessionId session
  owns : session.deviceId = r.deviceId
  known : w.devices.lookup r.deviceId = some device
  notRevoked : device.revoked = false
  signed : r.SingleLines u → signed device.publicKey (r.lines u)
  token : r.sessionToken ≠ "" → session.tokenHash = hashSessionToken crypto r.sessionToken

/-- The call gives the session a new date of expiry and is rejected afterwards: with a
token for its device, its signature or its nonce; without one for its revoked device. -/
def SignedRequest.RejectedAfterRefresh (u : UnicodeData) (crypto : Crypto) (clock : ℕ → ℚ)
    (r : SignedRequest) (w : World) : Prop :=
  ∃ session, Usable clock w r.sessionId session ∧
    if r.sessionToken ≠ "" then
      session.tokenHash = hashSessionToken crypto r.sessionToken ∧
        session.RefreshDue (clock (w.tick + 1)) ∧
        ∀ device, r.Vouched u crypto w (clock (w.tick + 3)) session device → device.revoked = true
    else
      r.allowMissingSessionToken = true ∧ session.isExpired (clock (w.tick + 2)) = false ∧
        session.RefreshDue (clock (w.tick + 3)) ∧
        ∃ device, r.Vouched u crypto w (clock (w.tick + 1)) session device ∧ device.revoked = true

theorem SignedRequest.Vouched.signed {u : UnicodeData} {crypto : Crypto}
    {signed : String → List String → Prop} (hcrypto : Unforgeable crypto signed)
    {r : SignedRequest} {w : World} {now : ℚ} {session : ControlSession} {device : Device}
    (h : r.Vouched u crypto w now session device) (hr : r.SingleLines u) :
    signed device.publicKey (r.lines u) := by
  obtain ⟨parts, hparts, hmessage⟩ := hcrypto.verified _ _ _ h.signature
  have hlines : r.lines u = parts :=
    intercalate_inj (c := '\n') rfl hr (hcrypto.singleLines _ _ hparts) (by simp [lines])
      (hcrypto.nonempty _ _ hparts) (String.toByteArray_inj.1 hmessage)
  exact hlines ▸ hparts

section Sound

variable {u : UnicodeData} {crypto : Crypto} {clock : ℕ → ℚ} {signed : String → List String → Prop}
  {r : SignedRequest} {w w' : World} {session : ControlSession} {device : Device} {e : Error}

/-- What soundness says of an outcome. -/
def SignedRequest.Sound (u : UnicodeData) (crypto : Crypto) (clock : ℕ → ℚ)
    (signed : String → List String → Prop) (r : SignedRequest) (w : World)
    (outcome : Except Error ControlSession × World) : Prop :=
  (∀ result, outcome.1 = .ok result →
      ∃ session device, r.Authentic u crypto clock signed w session device) ∧
    ((∀ e, outcome.1 = .error e → outcome.2.access = w.access) ↔
      ¬ r.RejectedAfterRefresh u crypto clock w)

theorem sound_refused (haccess : w'.access = w.access)
    (h : ¬ r.RejectedAfterRefresh u crypto clock w) :
    r.Sound u crypto clock signed w (.error e, w') :=
  ⟨fun _ h => (nomatch h), iff_of_true (fun _ _ => haccess) h⟩

/-- The session was seen before the request was refused. -/
theorem sound_refreshed {now : ℚ} (haccess : w'.access = w.access ↔ ¬ session.RefreshDue now)
    (h : r.RejectedAfterRefresh u crypto clock w ↔ session.RefreshDue now) :
    r.Sound u crypto clock signed w (.error e, w') := by
  refine ⟨fun _ h => (nomatch h), ?_⟩
  rw [h, ← haccess]
  exact ⟨fun h => h e rfl, fun h _ _ => h⟩

theorem sound_of_token (hcrypto : Unforgeable crypto signed) (htoken : r.sessionToken ≠ "") :
    r.Sound u crypto clock signed w
      ((authenticateSignedSessionRequest u crypto r).run (exec crypto clock) w) := by
  have hrejected : r.RejectedAfterRefresh u crypto clock w ↔
      ∃ session, Usable clock w r.sessionId session ∧
        session.tokenHash = hashSessionToken crypto r.sessionToken ∧
          session.RefreshDue (clock (w.tick + 1)) ∧
        ∀ device, r.Vouched u crypto w (clock (w.tick + 3)) session device →
          device.revoked = true := by
    unfold SignedRequest.RejectedAfterRefresh
    simp only [if_pos htoken]
  have hsession : r.session = authenticateSession r.sessionId r.sessionToken := if_pos htoken
  rw [authenticateSigned_eq, hsession, authenticateSession, Prog.bind_assoc]
  have hauthenticate : (SessionStore.authenticate r.sessionId r.sessionToken).run
      (exec crypto clock) w =
      seeSession clock r.sessionId _ w := Prog.run_ofExcept _ _ _
  rcases seeSession_cases w clock r.sessionId _ with
    ⟨session, husable, hcheck, hseen⟩ | ⟨e, tick, hnone, hseen⟩
  swap
  · rw [hseen] at hauthenticate
    rw [Prog.run_bind_error hauthenticate]
    refine sound_refused rfl ?_
    rw [hrejected]
    rintro ⟨session, husable, hhash, -⟩
    exact hnone session husable (token_check_iff.2 hhash)
  rw [hseen] at hauthenticate
  rw [Prog.run_bind_ok hauthenticate, Prog.bind_assoc]
  have hhash := token_check_iff.1 hcheck
  have hlate {w' : World} {e : Error} (haccess : w'.access = (w.seen clock session).access)
      (hrevoked : ∀ device, r.Vouched u crypto w (clock (w.tick + 3)) session device →
        device.revoked = true) :
      r.Sound u crypto clock signed w (.error e, w') := by
    refine sound_refreshed (haccess ▸ access_seen_iff husable.found) ?_
    rw [hrejected]
    constructor
    · rintro ⟨session', h, -, hdue, -⟩
      obtain rfl := husable.unique h
      exact hdue
    · exact fun hdue => ⟨session, husable, hhash, hdue, hrevoked⟩
  rcases touchDevice_cases (w.seen clock session) crypto clock
    (session.seenAt (clock (w.tick + 1))).deviceId with
    ⟨device, hdevice, hrevoked, htouch⟩ | ⟨e, hnone, htouch⟩
  swap
  · rw [Prog.run_bind_error htouch]
    exact hlate rfl fun device h => hnone device (h.owns ▸ h.known)
  rw [Prog.run_bind_ok htouch]
  -- the device was only touched since, and the session only seen
  have hvouched : (∃ touched, r.Vouched u crypto ((w.seen clock session).touched clock device)
      (clock (w.tick + 3)) (session.seenAt (clock (w.tick + 1))) touched) ↔
      r.Vouched u crypto w (clock (w.tick + 3)) session device :=
    (vouched_touched_iff (w := w.seen clock session) hdevice).trans
      ⟨fun h => ⟨h.owns, h.known, h.signature, h.nonce⟩,
        fun h => ⟨h.owns, h.known, h.signature, h.nonce⟩⟩
  rcases vouch_cases ((w.seen clock session).touched clock device) r u crypto clock
    (session.seenAt (clock (w.tick + 1))) with
    ⟨touched, nonces, htouched, hvouch⟩ | ⟨e, tick, hnot, hvouch⟩
  · rw [Prog.pure_eq, Prog.pure_bind, Prog.run_bind_ok hvouch, if_neg htoken]
    have h := hvouched.1 ⟨touched, htouched⟩
    refine ⟨fun _ _ => ⟨session, device, husable, h.owns, h.known, hrevoked, h.signed hcrypto,
      fun _ => hhash⟩,
      iff_of_true (fun _ h => (nomatch h)) ?_⟩
    rw [hrejected]
    rintro ⟨session', husable', -, -, hrevoked'⟩
    obtain rfl := husable.unique husable'
    exact nomatch hrevoked.symm.trans (hrevoked' device h)
  · rw [Prog.pure_eq, Prog.pure_bind, Prog.run_bind_error hvouch]
    refine hlate (access_touched (w := w.seen clock session) hdevice) fun device' h => ?_
    obtain rfl : device' = device := some.inj (h.known.symm.trans (h.owns ▸ hdevice))
    exact (not_exists.2 hnot (hvouched.2 h)).elim

/-- The session is seen after every other check but the last: whether the device is
revoked. -/
theorem sound_of_tokenless (hcrypto : Unforgeable crypto signed) (htoken : r.sessionToken = "") :
    r.Sound u crypto clock signed w
      ((authenticateSignedSessionRequest u crypto r).run (exec crypto clock) w) := by
  have hrejected : r.RejectedAfterRefresh u crypto clock w ↔
      ∃ session, Usable clock w r.sessionId session ∧ r.allowMissingSessionToken = true ∧
        session.isExpired (clock (w.tick + 2)) = false ∧ session.RefreshDue (clock (w.tick + 3)) ∧
        ∃ device, r.Vouched u crypto w (clock (w.tick + 1)) session device ∧
          device.revoked = true := by
    unfold SignedRequest.RejectedAfterRefresh
    simp only [if_neg (not_not_intro htoken)]
  rw [authenticateSigned_eq]
  rcases tokenless_session_cases w crypto clock htoken with
    ⟨session, hallow, husable, hrun⟩ | ⟨e, tick, hnone, hrun⟩
  swap
  · rw [Prog.run_bind_error hrun]
    refine sound_refused rfl ?_
    rw [hrejected]
    rintro ⟨session, husable, hallow, -⟩
    exact hnone hallow session husable
  rw [Prog.run_bind_ok hrun]
  rcases vouch_cases { w with tick := w.tick + 1 } r u crypto clock session with
    ⟨device, nonces, hvouched, hvouch⟩ | ⟨e, tick, hnot, hvouch⟩
  swap
  · rw [Prog.run_bind_error hvouch]
    refine sound_refused rfl ?_
    rw [hrejected]
    rintro ⟨session', husable', -, -, -, device, h, -⟩
    obtain rfl := husable.unique husable'
    exact hnot device ⟨h.owns, h.known, h.signature, h.nonce⟩
  rw [Prog.run_bind_ok hvouch, if_pos htoken]
  have hknown : r.Vouched u crypto w (clock (w.tick + 1)) session device :=
    ⟨hvouched.owns, hvouched.known, hvouched.signature, hvouched.nonce⟩
  have htouch : (SessionStore.touch r.sessionId).run (exec crypto clock)
        { w with nonces := nonces, tick := w.tick + 1 + 1 } =
      seeSession clock r.sessionId (fun _ => .ok ())
        { w with nonces := nonces, tick := w.tick + 1 + 1 } := Prog.run_ofExcept _ _ _
  rcases seeSession_cases { w with nonces := nonces, tick := w.tick + 1 + 1 } clock
    r.sessionId (fun _ => .ok ()) with
    ⟨session', husable', _, hseen⟩ | ⟨e, tick, hnone, hseen⟩
  swap
  · rw [hseen] at htouch
    rw [Prog.run_bind_error htouch]
    refine sound_refused rfl ?_
    rw [hrejected]
    rintro ⟨session', h, -, hexpired, -⟩
    exact hnone session' ⟨h.found, h.notRevoked, hexpired⟩ rfl
  obtain rfl : session' = session := some.inj (husable'.found.symm.trans husable.found)
  rw [hseen] at htouch
  rw [Prog.run_bind_ok htouch]
  have hdevice := hknown.owns ▸ hknown.known
  rcases touchDevice_cases
    (World.seen clock { w with nonces := nonces, tick := w.tick + 1 + 1 } session') crypto clock
    (session'.seenAt (clock (w.tick + 1 + 1 + 1))).deviceId with
    ⟨device', hdevice', hrevoked, htouched⟩ | ⟨e, hrevoked, htouched⟩
  · rw [Prog.run_bind_ok htouched]
    obtain rfl : device' = device := some.inj (hdevice'.symm.trans hdevice)
    refine ⟨fun _ _ => ⟨session', device', husable, hknown.owns, hknown.known, hrevoked,
      hknown.signed hcrypto, fun h => (h htoken).elim⟩, iff_of_true (fun _ h => (nomatch h)) ?_⟩
    rw [hrejected]
    rintro ⟨_, -, -, -, -, device, h, hrevoked'⟩
    obtain rfl : device = device' := some.inj (h.known.symm.trans hknown.known)
    exact nomatch hrevoked.symm.trans hrevoked'
  · rw [Prog.run_bind_error htouched]
    refine sound_refreshed
      (access_seen_iff (w := { w with nonces := nonces, tick := w.tick + 1 + 1 }) husable.found) ?_
    rw [hrejected]
    constructor
    · rintro ⟨session, h, -, -, hdue, -⟩
      obtain rfl := husable.unique h
      exact hdue
    · exact fun hdue => ⟨session', husable, hallow, husable'.notExpired, hdue, device, hknown,
        hrevoked device hdevice⟩

end Sound

/-- For every store and every request: a call that returns had a usable session of an
unrevoked device that signed the request; and a call that raises leaves the access fields
of sessions and devices alone unless it is rejected after the refresh. -/
theorem authenticateSigned_sound (u : UnicodeData) (crypto : Crypto) (clock : ℕ → ℚ)
    (signed : String → List String → Prop) (hcrypto : Unforgeable crypto signed)
    (r : SignedRequest) (w : World) :
    (∀ result, ((authenticateSignedSessionRequest u crypto r).run (exec crypto clock) w).1 =
        .ok result → ∃ session device, r.Authentic u crypto clock signed w session device) ∧
    ((∀ e, ((authenticateSignedSessionRequest u crypto r).run (exec crypto clock) w).1 = .error e →
        ((authenticateSignedSessionRequest u crypto r).run (exec crypto clock) w).2.access =
          w.access) ↔
      ¬ r.RejectedAfterRefresh u crypto clock w) := by
  by_cases htoken : r.sessionToken = ""
  · exact sound_of_tokenless hcrypto htoken
  · exact sound_of_token hcrypto htoken

def phoneRequest : SignedRequest where
  sessionId := "sess"
  sessionToken := "tok"
  deviceId := "dev"
  method := "post"
  path := "/api/requests"
  timestamp := "99"
  nonce := "a"
  signature := "sig"

/-- The device with the public key `key` has signed one request. -/
def phoneSigned (publicKey : String) (parts : List String) : Prop :=
  publicKey = "key" ∧ parts = phoneRequest.lines .ascii

def phoneCrypto : Crypto where
  sha256 := id
  verifyEcdsaSignature := fun publicKey _ message =>
    if publicKey = "key" ∧ message.data = (phoneRequest.deviceSignatureMessage .ascii).data then
      .ok ()
    else permissionError "device signature rejected"

theorem phone_unforgeable : Unforgeable phoneCrypto phoneSigned where
  verified publicKey signature message h := by
    by_cases hm :
        publicKey = "key" ∧ message.data = (phoneRequest.deviceSignatureMessage .ascii).data
    · exact ⟨_, ⟨hm.1, rfl⟩, ByteArray.ext hm.2⟩
    · have he : phoneCrypto.verifyEcdsaSignature publicKey signature message =
          permissionError "device signature rejected" := if_neg hm
      exact nomatch he.symm.trans h
  nonempty := by
    rintro publicKey parts ⟨-, rfl⟩
    decide
  singleLines := by
    rintro publicKey parts ⟨-, rfl⟩
    decide

/-- The signed request of a paired device is authenticated. -/
theorem authenticateSigned_sound_phone :
    ((authenticateSignedSessionRequest .ascii phoneCrypto phoneRequest).run
      (exec phoneCrypto fun _ => 100) pairedWorld).1.isOk = true ∧
    ∃ session device,
      phoneRequest.Authentic .ascii phoneCrypto
        (fun _ => 100) phoneSigned pairedWorld session device := by
  have hok : ((authenticateSignedSessionRequest .ascii phoneCrypto phoneRequest).run
      (exec phoneCrypto fun _ => 100) pairedWorld).1.isOk = true := by decide +kernel
  refine ⟨hok, ?_⟩
  obtain ⟨hsound, -⟩ := authenticateSigned_sound .ascii phoneCrypto (fun _ => 100) phoneSigned
    phone_unforgeable phoneRequest pairedWorld
  cases hrun : ((authenticateSignedSessionRequest .ascii phoneCrypto phoneRequest).run
      (exec phoneCrypto fun _ => 100) pairedWorld).1 with
  | error e =>
    rw [hrun] at hok
    cases hok
  | ok result => exact hsound result hrun

/-- The device has been revoked while its session has less than a year to go. -/
def revokedWorld : World where
  devices := Table.empty.insert ⟨"dev", "phone", "key", "", true, 0, none⟩
  sessions :=
    Table.empty.insert
      ⟨"sess", "dev", hashSessionToken phoneCrypto "tok", "csrf", 10 ^ 6, false, 0, none⟩
  nonces := .empty
  tick := 0

/-- The request of a revoked device is refused and its session runs for ten more years. -/
theorem refused_session_refreshed :
    let outcome := (authenticateSignedSessionRequest .ascii phoneCrypto phoneRequest).run
      (exec phoneCrypto fun _ => 100) revokedWorld
    outcome.1 = .error ⟨.permissionError, "device revoked"⟩ ∧
      revokedWorld.access.1 "sess" = some (10 ^ 6, false) ∧
      outcome.2.access.1 "sess" = some (100 + controlSessionTtlSeconds, false) := by
  decide +kernel

end OmniDoer.Auth
