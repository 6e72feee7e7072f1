import OmniDoer.Model.Server

/-! # Accepting an envelope and opening it

The server compares the metadata of a submitted envelope when it stores the envelope, and
the broker compares it again when it opens the stored envelope. The two comparisons differ
in the expiry, where one is a tolerance test that a missing value passes, and in the
device, which one takes from the session and the other from the request. -/

namespace OmniDoer.Server

open Py Requests SecureChannel

def Handler.paired (session : Auth.ControlSession) (restart : Except Error Unit) : Handler :=
  ⟨true, some session, restart⟩

variable {envelope : Dict} {request : ControlRequest} {session : Auth.ControlSession}

theorem sameIds_iff {requestId origin requestType : String} :
    sameIds envelope requestId origin requestType = true ↔
      envelope.get? "request_id" = some (.str requestId) ∧
        envelope.get? "origin" = some (.str origin) ∧
        envelope.get? "request_type" = some (.str requestType) := by
  simp [sameIds, Json.eqStr_iff, and_assoc]

/-- The envelope names the request and the device of the session. -/
structure NamedFor (envelope : Dict) (request : ControlRequest) (session : Auth.ControlSession) :
    Prop where
  requestId : envelope.get? "request_id" = some (.str request.requestId)
  origin : envelope.get? "origin" = some (.str request.origin)
  requestType : envelope.get? "request_type" = some (.str request.requestType.name)
  deviceId : envelope.get? "device_id" = some (.str session.deviceId)

/-- The server accepts an envelope that names the request and the device and whose
expiry, if there is one, is not seen to differ. -/
theorem validateEnvelopeForSession_ok_iff {restart : Except Error Unit} :
    validateEnvelopeForSession (.paired session restart) envelope request = .ok () ↔
      NamedFor envelope request session ∧
        ∃ x, envelopeExpiry envelope = .ok x ∧ expiryDiffers x request.expiresAt = false := by
  have hnamed : NamedFor envelope request session ↔
      sameIds envelope request.requestId request.origin request.requestType.name = true ∧
        Json.eqStr (envelope.get? "device_id") session.deviceId = true := by
    rw [sameIds_iff, Json.eqStr_iff]
    exact ⟨fun h => ⟨⟨h.1, h.2, h.3⟩, h.4⟩, fun h => ⟨h.1.1, h.1.2.1, h.1.2.2, h.2⟩⟩
  rw [hnamed]
  simp only [validateEnvelopeForSession, Handler.paired]
  by_cases hids : sameIds envelope request.requestId request.origin request.requestType.name = true
  · by_cases hdevice : Json.eqStr (envelope.get? "device_id") session.deviceId = true
    · cases hexpiry : envelopeExpiry envelope with
      | error e => simp [hids, hdevice]
      | ok x => cases hdiffers : expiryDiffers x request.expiresAt <;> simp [hids, hdevice]
    · simp [hids, hdevice]
  · simp [hids]

theorem envelopeExpiry_of_get? {v : Json} (h : envelope.get? "expires_at" = some v) :
    envelopeExpiry envelope = v.toFloat := by
  simp [envelopeExpiry, h]

theorem envelopeExpiry_of_none (h : envelope.get? "expires_at" = none) :
    envelopeExpiry envelope = .ok .nan := by
  have hnan : (Json.str "nan").toFloat = .ok .nan := by decide +kernel
  simpa [envelopeExpiry, h] using hnan

theorem expiryDiffers_nan (t : ℚ) : expiryDiffers .nan t = false := by
  simp [expiryDiffers, Double.abs, Double.sub]

theorem notNone_eq_some_of_toFloat {v : Json} {x : Double} (h : v.toFloat = .ok x) :
    notNone (some v) = some v := by
  cases v with
  | null => cases h
  | _ => rfl

/-- The envelope names the request and the device, and its expiry is that of the
request. -/
def Carries (envelope : Dict) (request : ControlRequest) (session : Auth.ControlSession) : Prop :=
  NamedFor envelope request session ∧
    ∃ v, envelope.get? "expires_at" = some v ∧ v.toFloat = .ok (.fin request.expiresAt)

/-- An envelope that the server accepts carries what it was accepted for, and passes the
checks that are made before it is opened. -/
def Agrees (session : Auth.ControlSession) (restart : Except Error Unit) (envelope : Dict)
    (request : ControlRequest) : Prop :=
  validateEnvelopeForSession (.paired session restart) envelope request = .ok () →
    Carries envelope request session ∧
      checkMetadata envelope (expectedFor request envelope) = .ok ()

/-- The request is for any device or for that of the session. -/
def ForDevice (request : ControlRequest) (session : Auth.ControlSession) : Prop :=
  ∀ d ∈ request.allowedDeviceId, d = session.deviceId

theorem checkMetadata_ok_iff (h : Carries envelope request session) :
    checkMetadata envelope (expectedFor request envelope) = .ok () ↔ ForDevice request session := by
  obtain ⟨hnamed, v, hv, hfloat⟩ := h
  have hexpiry : envelopeExpiry envelope = .ok (.fin request.expiresAt) :=
    (envelopeExpiry_of_get? hv).trans hfloat
  have hself : Double.eq (.fin request.expiresAt) (.fin request.expiresAt) = true :=
    (Double.eq_fin_iff _ _).2 rfl
  have heq (d : String) : Json.eqStr (some (.str session.deviceId)) d = true ↔
      d = session.deviceId := by
    rw [Json.eqStr_iff, Option.some.injEq, Json.str.injEq, eq_comm]
  unfold checkMetadata ForDevice
  simp only [expectedFor, sameIds_iff.2 ⟨hnamed.requestId, hnamed.origin, hnamed.requestType⟩, hv,
    notNone_eq_some_of_toFloat hfloat, Option.map_some, hexpiry, hself, hnamed.deviceId]
  cases request.allowedDeviceId with
  | none => simp
  | some d =>
    by_cases hd : d = session.deviceId
    · simp [hd, (heq session.deviceId).2 rfl]
    · simp [heq d]

/-- The two comparisons agree on an envelope exactly when, if it names the request and the
device, it has an expiry, and this is refused, or equal to that of a request which is for
the device. -/
theorem envelope_agrees_iff (session : Auth.ControlSession) (restart : Except Error Unit)
    (envelope : Dict) (request : ControlRequest) :
    Agrees session restart envelope request ↔
      (NamedFor envelope request session →
        ∃ v, envelope.get? "expires_at" = some v ∧
          ∀ x, v.toFloat = .ok x → expiryDiffers x request.expiresAt = false →
            x = .fin request.expiresAt ∧ ForDevice request session) := by
  unfold Agrees
  rw [validateEnvelopeForSession_ok_iff]
  constructor
  · intro h hnamed
    cases hv : envelope.get? "expires_at" with
    | none =>
      obtain ⟨⟨_, v, hsome, _⟩, _⟩ :=
        h ⟨hnamed, .nan, envelopeExpiry_of_none hv, expiryDiffers_nan _⟩
      rw [hv] at hsome
      cases hsome
    | some v =>
      refine ⟨v, rfl, fun x hx hsame => ?_⟩
      obtain ⟨hcarries, hcheck⟩ := h ⟨hnamed, x, (envelopeExpiry_of_get? hv).trans hx, hsame⟩
      refine ⟨?_, (checkMetadata_ok_iff hcarries).1 hcheck⟩
      obtain ⟨_, v', hv', hfloat⟩ := hcarries
      rw [hv] at hv'
      cases hv'
      exact Except.ok.inj (hx.symm.trans hfloat)
  · rintro h ⟨hnamed, x, hexpiry, hsame⟩
    obtain ⟨v, hv, hall⟩ := h hnamed
    have hx : v.toFloat = .ok x := (envelopeExpiry_of_get? hv).symm.trans hexpiry
    obtain ⟨rfl, hdevice⟩ := hall x hx hsame
    have hcarries : Carries envelope request session := ⟨hnamed, v, hv, hx⟩
    exact ⟨hcarries, (checkMetadata_ok_iff hcarries).2 hdevice⟩

/-- An envelope without an expiry is accepted. -/
theorem accepted_without_expiry :
    ¬ ∀ (session : Auth.ControlSession) (restart : Except Error Unit) (envelope : Dict)
        (request : ControlRequest), Agrees session restart envelope request := by
  intro h
  let session : Auth.ControlSession := ⟨"sess", "dev", "", "", 1000, false, 0, none⟩
  let request : ControlRequest :=
    { requestId := "req", requestType := .credential, origin := "https://example.com"
      topLevelUrl := "", actionSummary := "", expiresAt := 100, createdAt := 0, updatedAt := 0 }
  let envelope : Dict :=
    [("request_id", .str "req"), ("origin", .str "https://example.com"),
      ("request_type", .str "credential"), ("device_id", .str "dev")]
  have haccepted : validateEnvelopeForSession (.paired session (.ok ())) envelope request =
      .ok () := by
    decide +kernel
  obtain ⟨⟨_, v, hv, _⟩, _⟩ := h session (.ok ()) envelope request haccepted
  cases hv

end OmniDoer.Server
