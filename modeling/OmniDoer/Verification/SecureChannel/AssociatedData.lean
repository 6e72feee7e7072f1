import OmniDoer.Library.PyJsonLex
import OmniDoer.Model.WebClient
import OmniDoer.Verification.SecureChannel.Replay

/-! # The associated data of the two ends

The browser and the broker write the same members in the same order. They differ in the
characters from U+007F on, which only the broker escapes, and in the spelling of most
numbers that are not ordinary fractions, whole numbers among them. -/

namespace OmniDoer.SecureChannel

open Py WebClient List

/-- No character has to be escaped for being outside ASCII. -/
def PlainText (s : String) : Prop := ∀ c ∈ s.toList, c.toNat < 127

instance (s : String) : Decidable (PlainText s) :=
  List.decidableBAll _ _

theorem PlainText.quote_eq {s : String} (h : PlainText s) : quote true s = quote false s := by
  have hchars : s.toList.flatMap (escapeChar true) = s.toList.flatMap (escapeChar false) := by
    refine congrArg flatten (map_congr_left fun c hc => ?_)
    simp [escapeChar, Nat.not_le.2 (h c hc)]
  simp only [quote, hchars]

theorem toNat_hexDigit_lt : ∀ n < 16, (hexDigit n).toNat < 127 := by
  decide

theorem ascii_unicodeEscape (n : ℕ) : ∀ c ∈ unicodeEscape n, c.toNat < 127 := by
  intro c hc
  simp only [unicodeEscape, mem_cons, not_mem_nil, or_false] at hc
  rcases hc with rfl | rfl | rfl | rfl | rfl | rfl
  · decide
  · decide
  all_goals exact toNat_hexDigit_lt _ (Nat.mod_lt _ (by decide))

theorem escapedUnit_lt {e : Char} {n : ℕ} (h : escapedUnit e = some n) : e.toNat < 127 := by
  unfold escapedUnit at h
  split at h
  · rename_i he
    rcases he with rfl | rfl | rfl <;> decide
  split_ifs at h with hb hf hn hr ht
  all_goals
    subst e
    decide

theorem ascii_escapeChar (c : Char) : ∀ d ∈ escapeChar true c, d.toNat < 127 := by
  rcases escapeChar_cases c true with ⟨_, e, _, hunit, htext⟩ | ⟨_, htext⟩ | ⟨_, _, htext⟩ |
    ⟨_, _, _, hascii, htext⟩
  · rw [htext]
    intro d hd
    simp only [mem_cons, not_mem_nil, or_false] at hd
    rcases hd with rfl | rfl
    · decide
    · exact escapedUnit_lt hunit
  · rw [htext]
    exact ascii_unicodeEscape _
  · rw [htext]
    intro d hd
    rcases mem_append.1 hd with hd | hd
    · exact ascii_unicodeEscape _ d hd
    · exact ascii_unicodeEscape _ d hd
  · rw [htext]
    intro d hd
    rw [mem_singleton.1 hd]
    by_contra hge
    exact hascii ⟨rfl, not_lt.1 hge⟩

theorem ascii_quote (s : String) : ∀ c ∈ quote true s, c.toNat < 127 := by
  intro c hc
  simp only [quote, mem_cons, mem_append, mem_flatMap, not_mem_nil, or_false] at hc
  rcases hc with rfl | ⟨d, _, hc⟩ | rfl
  · decide
  · exact ascii_escapeChar d c hc
  · decide

/-- The associated data with the given spellings of its five values. -/
def layout (ascii : Bool) (device expiry origin requestId requestType : List Char) : List Char :=
  '\x7b' :: joinItems '\x7d'
    [memberText ascii ("device_id", device), memberText ascii ("expires_at", expiry),
      memberText ascii ("origin", origin), memberText ascii ("request_id", requestId),
      memberText ascii ("request_type", requestType)]

variable (requestId origin requestType deviceId : String)

theorem associatedData_eq (py : Interpreter) (expiresAt : Double) :
    associatedData py requestId origin requestType (some (.str deviceId)) (some expiresAt) =
      (String.ofList (layout true (quote true deviceId) (numberRepr py expiresAt).toList
        (quote true origin) (quote true requestId) (quote true requestType))).toByteArray := by
  have hsorted : sortKeys [("request_id", Json.str requestId), ("origin", .str origin),
      ("request_type", .str requestType), ("device_id", .str deviceId),
      ("expires_at", .float expiresAt)] =
      [("device_id", .str deviceId), ("expires_at", .float expiresAt), ("origin", .str origin),
        ("request_id", .str requestId), ("request_type", .str requestType)] := by
    simp +decide [sortKeys, orderedInsert]
  unfold associatedData Json.dumps
  simp only [Option.map_some, Option.toList_some, cons_append, nil_append, dumpsChars_obj, hsorted]
  simp [Json.dumpsChars, layout]

theorem stableAssociatedData_eq (shortest : ℚ → Decimal)
    {requestId origin requestType deviceId : String} {expiresAt : Double} (hdevice : deviceId ≠ "")
    (hexpiry : truthyNumber expiresAt = true) :
    stableAssociatedData shortest ⟨origin, requestId, requestType, some deviceId, some expiresAt⟩ =
      (String.ofList (layout false (quote false deviceId) (numberText shortest expiresAt)
        (quote false origin) (quote false requestId) (quote false requestType))).toByteArray := by
  have hsorted : sortKeys [("origin", Value.str origin), ("request_id", .str requestId),
      ("request_type", .str requestType), ("device_id", .str deviceId),
      ("expires_at", .num expiresAt)] =
      [("device_id", .str deviceId), ("expires_at", .num expiresAt), ("origin", .str origin),
        ("request_id", .str requestId), ("request_type", .str requestType)] := by
    simp +decide [sortKeys, orderedInsert]
  unfold stableAssociatedData stringify
  simp [Option.filter_some, hdevice, hexpiry, hsorted, Value.text, layout]

theorem layout_false (device expiry origin requestId requestType : List Char) :
    layout false device expiry origin requestId requestType =
      layout true device expiry origin requestId requestType := by
  have hkey (key : String) (h : PlainText key) (text : List Char) :
      memberText false (key, text) = memberText true (key, text) := by
    rw [memberText, memberText, h.quote_eq]
  unfold layout
  rw [hkey "device_id" (by decide), hkey "expires_at" (by decide), hkey "origin" (by decide),
    hkey "request_id" (by decide), hkey "request_type" (by decide)]

theorem mem_layout {device expiry origin requestId requestType : List Char} {c : Char}
    (h : c ∈ device ∨ c ∈ origin ∨ c ∈ requestId ∨ c ∈ requestType) :
    c ∈ layout true device expiry origin requestId requestType := by
  simp only [layout, joinItems, memberText]
  rcases h with h | h | h | h <;> simp [h]

theorem ascii_memberText {key : String} {text : List Char} (h : ∀ c ∈ text, c.toNat < 127) :
    ∀ c ∈ memberText true (key, text), c.toNat < 127 := by
  intro c hc
  rw [memberText, mem_append, mem_cons] at hc
  rcases hc with hc | rfl | hc
  · exact ascii_quote key c hc
  · decide
  · exact h c hc

theorem ascii_joinItems {close : Char} {texts : List (List Char)} (hclose : close.toNat < 127)
    (h : ∀ text ∈ texts, ∀ c ∈ text, c.toNat < 127) :
    ∀ c ∈ joinItems close texts, c.toNat < 127 := by
  intro c hc
  cases texts with
  | nil => exact mem_singleton.1 hc ▸ hclose
  | cons first rest =>
    simp only [joinItems, mem_append, mem_flatMap, mem_cons, not_mem_nil, or_false] at hc
    rcases hc with (hc | ⟨text, htext, rfl | hc⟩) | rfl
    · exact h first mem_cons_self c hc
    · decide
    · exact h text (mem_cons_of_mem _ htext) c hc
    · exact hclose

theorem ascii_layout {expiry : List Char} (h : ∀ c ∈ expiry, c.toNat < 127)
    (deviceId origin requestId requestType : String) :
    ∀ c ∈ layout true (quote true deviceId) expiry (quote true origin) (quote true requestId)
      (quote true requestType), c.toNat < 127 := by
  intro c hc
  rcases mem_cons.1 hc with rfl | hc
  · decide
  refine ascii_joinItems (by decide) (fun text htext => ?_) c hc
  simp only [mem_cons, not_mem_nil, or_false] at htext
  rcases htext with rfl | rfl | rfl | rfl | rfl
  · exact ascii_memberText (ascii_quote deviceId)
  · exact ascii_memberText h
  · exact ascii_memberText (ascii_quote origin)
  · exact ascii_memberText (ascii_quote requestId)
  · exact ascii_memberText (ascii_quote requestType)

/-- Both languages write the number from these digits, and write it alike. -/
def NumberAlike (shortest : ℚ → Decimal) : Double → Prop
  | .fin q => (shortest q).SpelledAlike
  | _ => False

section Numbers

variable {py : Interpreter} {shortest : ℚ → Decimal}

variable (hrepr : ∀ q, 0 < q → (py.floatRepr q).toList = (shortest q).pythonRepr)

variable {x : Double} (hx : (Double.fin 0).lt x = true)

include hx in
include hrepr in
theorem numberRepr_eq_iff :
    (numberRepr py x).toList = numberText shortest x ↔ NumberAlike shortest x := by
  cases x with
  | nan => cases hx
  | inf negative =>
    cases negative with
    | true => cases hx
    | false => exact iff_of_false (by simp [numberRepr, numberText]) id
  | fin q =>
    have hq : 0 < q := by simpa [Double.lt] using hx
    simp only [numberRepr, numberText, hrepr q hq, hq.ne', hq.not_gt]
    exact (shortest q).pythonRepr_eq_javascriptText_iff

include hx in
include hrepr in
theorem ascii_numberRepr : ∀ c ∈ (numberRepr py x).toList, c.toNat < 127 := by
  cases x with
  | nan => cases hx
  | inf negative =>
    cases negative with
    | true => cases hx
    | false => simp [numberRepr]
  | fin q =>
    have hq : 0 < q := by simpa [Double.lt] using hx
    rw [numberRepr, hrepr q hq]
    exact (shortest q).ascii_pythonRepr

include hx in
theorem truthyNumber_of_pos : truthyNumber x = true := by
  cases x with
  | nan => cases hx
  | inf negative => rfl
  | fin q =>
    have hq : 0 < q := by simpa [Double.lt] using hx
    simpa [truthyNumber] using hq.ne'

/-- What the two ends spell alike. -/
structure SpelledAlike (shortest : ℚ → Decimal) (requestId origin requestType deviceId : String)
    (expiresAt : Double) : Prop where
  requestId : PlainText requestId
  origin : PlainText origin
  requestType : PlainText requestType
  deviceId : PlainText deviceId
  expiresAt : NumberAlike shortest expiresAt

include hrepr in
theorem stableAssociatedData_eq_iff (expiresAt : Double) (hdevice : deviceId ≠ "")
    (hexpiry : (Double.fin 0).lt expiresAt = true) :
    stableAssociatedData shortest ⟨origin, requestId, requestType, some deviceId, some expiresAt⟩ =
        associatedData py requestId origin requestType (some (.str deviceId)) (some expiresAt) ↔
      SpelledAlike shortest requestId origin requestType deviceId expiresAt := by
  rw [stableAssociatedData_eq shortest hdevice (truthyNumber_of_pos hexpiry), associatedData_eq,
    String.toByteArray_inj, String.ofList_inj, layout_false]
  constructor
  · intro h
    have hascii :=
      ascii_layout (ascii_numberRepr hrepr hexpiry) deviceId origin requestId requestType
    rw [← h] at hascii
    -- a character that the browser leaves unescaped cannot stand in the broker's text
    have hplain {s : String} (hs : ∀ c ∈ quote false s, c.toNat < 127) : PlainText s := by
      intro c hc
      by_contra hge
      refine hge (hs c ?_)
      have hne (x : Char) (hx : x.toNat < 127) : c ≠ x := by
        rintro rfl
        omega
      have htext : escapeChar false c = [c] := by
        rw [escapeChar, if_neg (hne '"' (by decide)), if_neg (hne '\\' (by decide)),
          if_neg (hne '\n' (by decide)), if_neg (hne '\r' (by decide)),
            if_neg (hne '\t' (by decide)),
          if_neg (by omega), if_neg (by omega), if_neg (by omega), if_neg (by simp)]
      refine mem_cons_of_mem _ (mem_append_left _ (mem_flatMap.2 ⟨c, hc, ?_⟩))
      rw [htext]
      exact mem_singleton_self c
    have hdeviceId : PlainText deviceId := hplain fun c hc => hascii c (mem_layout (.inl hc))
    have horigin : PlainText origin := hplain fun c hc => hascii c (mem_layout (.inr (.inl hc)))
    have hrequestId : PlainText requestId :=
      hplain fun c hc => hascii c (mem_layout (.inr (.inr (.inl hc))))
    have hrequestType : PlainText requestType :=
      hplain fun c hc => hascii c (mem_layout (.inr (.inr (.inr hc))))
    rw [hdeviceId.quote_eq, horigin.quote_eq, hrequestId.quote_eq, hrequestType.quote_eq] at h
    refine ⟨hrequestId, horigin, hrequestType, hdeviceId, (numberRepr_eq_iff hrepr hexpiry).1 ?_⟩
    simpa [layout, joinItems, memberText] using h.symm
  · intro h
    rw [h.deviceId.quote_eq, h.origin.quote_eq, h.requestId.quote_eq, h.requestType.quote_eq,
      (numberRepr_eq_iff hrepr hexpiry).2 h.expiresAt]

end Numbers

/-- What was sealed under some associated data is opened under that data and under no
other. -/
def Authenticated (cipher : Cipher) (sealPayload : Json → ByteArray → Sealed) : Prop :=
  ∀ payload aad aad' envelope,
    envelope.get? "ephemeral_public_jwk" = some (sealPayload payload aad).ephemeralPublicJwk →
    bytesOf envelope "nonce" = .ok (sealPayload payload aad).nonce →
    bytesOf envelope "ciphertext" = .ok (sealPayload payload aad).ciphertext →
    (cipher.openWith cipher.webKey envelope aad' = .ok payload ↔ aad' = aad)

theorem decrypt_encryptForBroker (py : Interpreter) (cipher : Cipher) (shortest : ℚ → Decimal)
    (sealPayload : Json → ByteArray → Sealed) (payload : Json) {expiresAt : ℚ} {expiry : Json}
    (hexpiry : expiry.toFloat = .ok (.fin expiresAt)) {seen : List String}
    (hnew : ReplayGuard.marker py cipher.sha256
      (encryptForBroker shortest sealPayload payload
        ⟨origin, requestId, requestType, some deviceId, some (.fin expiresAt)⟩ expiry) ∉ seen) :
    (decryptControlEnvelope py cipher.channel
      (encryptForBroker shortest sealPayload payload
        ⟨origin, requestId, requestType, some deviceId, some (.fin expiresAt)⟩ expiry)
      ⟨requestId, origin, requestType, some deviceId, some expiresAt⟩ (some seen)).1 =
      cipher.openWith cipher.webKey
        (encryptForBroker shortest sealPayload payload
          ⟨origin, requestId, requestType, some deviceId, some (.fin expiresAt)⟩ expiry)
        (associatedData py requestId origin requestType (some (.str deviceId))
          (some (.fin expiresAt))) := by
  generalize henvelope : encryptForBroker shortest sealPayload payload
    ⟨origin, requestId, requestType, some deviceId, some (.fin expiresAt)⟩ expiry =
      envelope at hnew ⊢
  have hversion : Json.eqStr (envelope.get? "version") "web-p256-v1" = true := by
    rw [← henvelope]
    rfl
  have hmeta : checkMetadata envelope
      ⟨requestId, origin, requestType, some deviceId, some expiresAt⟩ = .ok () := by
    have hids : sameIds envelope requestId origin requestType = true := by
      rw [← henvelope]
      simp [sameIds, encryptForBroker, Dict.get?, lookup_cons, Json.eqStr]
    have hdevice : Json.eqStr (envelope.get? "device_id") deviceId = true := by
      rw [← henvelope]
      simp [encryptForBroker, Dict.get?, lookup_cons, Json.eqStr]
    have hread : envelopeExpiry envelope = .ok (.fin expiresAt) := by
      rw [← henvelope, ← hexpiry]
      rfl
    simp [checkMetadata, hids, hdevice, hread, Double.eq]
  have haad : aadFields envelope ⟨requestId, origin, requestType, some deviceId, some expiresAt⟩ =
      .ok (some (.str deviceId), some (.fin expiresAt)) := rfl
  rw [decryptControlEnvelope, if_pos hversion, decryptWith, hmeta]
  simp [haad, Cipher.channel, ReplayGuard.checkAndMark, hnew]

/-- For every request with a device and a positive expiry the two ends compute the same
associated data, and the broker opens the genuine submission, exactly when the four
strings stay below U+007F and the expiry is spelled alike. -/
theorem submission_decrypts_iff (py : Interpreter) (shortest : ℚ → Decimal)
    (hrepr : ∀ q, 0 < q → (py.floatRepr q).toList = (shortest q).pythonRepr)
    (requestId origin requestType deviceId : String) (expiresAt : Double) (hdevice : deviceId ≠ "")
    (hexpiry : (Double.fin 0).lt expiresAt = true) :
    (stableAssociatedData shortest ⟨origin, requestId, requestType, some deviceId, some expiresAt⟩ =
        associatedData py requestId origin requestType (some (.str deviceId)) (some expiresAt) ↔
      SpelledAlike shortest requestId origin requestType deviceId expiresAt) ∧
    ∀ (cipher : Cipher) (sealPayload : Json → ByteArray → Sealed) (payload expiry : Json) (q : ℚ)
      (seen : List String), Authenticated cipher sealPayload → expiresAt = .fin q →
      expiry.toFloat = .ok expiresAt →
      ReplayGuard.marker py cipher.sha256 (encryptForBroker shortest sealPayload payload
        ⟨origin, requestId, requestType, some deviceId, some expiresAt⟩ expiry) ∉ seen →
      ((decryptControlEnvelope py cipher.channel
        (encryptForBroker shortest sealPayload payload
          ⟨origin, requestId, requestType, some deviceId, some expiresAt⟩ expiry)
        ⟨requestId, origin, requestType, some deviceId, some q⟩ (some seen)).1 = .ok payload ↔
        SpelledAlike shortest requestId origin requestType deviceId expiresAt) := by
  have hagree := stableAssociatedData_eq_iff requestId origin requestType deviceId hrepr expiresAt
      hdevice hexpiry
  refine ⟨hagree, ?_⟩
  rintro cipher sealPayload payload expiry q seen hsealed rfl hfloat hnew
  rw [decrypt_encryptForBroker requestId origin requestType deviceId py cipher shortest sealPayload
    payload hfloat hnew, ← hagree]
  refine (hsealed payload _ _ _ ?_ ?_ ?_).trans eq_comm
  · rfl
  · exact unb64_b64 _
  · exact unb64_b64 _

def someDigits (q : ℚ) : Decimal :=
  if q = 2 then ⟨['2'], 1, by decide, List.forall_iff_forall_mem.1 (by decide)⟩
  else ⟨['1', '5'], 1, by decide, List.forall_iff_forall_mem.1 (by decide)⟩

def someInterpreter : Interpreter :=
  { Interpreter.ascii with floatRepr := fun q => String.ofList (someDigits q).pythonRepr }

/-- An ASCII request that expires at 1.5. -/
theorem submission_decrypts_half :
    stableAssociatedData someDigits ⟨"https://a.example", "req", "login", some "dev",
      some (.fin (3 / 2))⟩ =
      associatedData someInterpreter "req" "https://a.example" "login" (some (.str "dev"))
        (some (.fin (3 / 2))) := by
  have hrepr (q : ℚ) (_ : 0 < q) :
      (someInterpreter.floatRepr q).toList = (someDigits q).pythonRepr := String.toList_ofList
  have hagree := (submission_decrypts_iff someInterpreter someDigits hrepr "req" "https://a.example"
    "login" "dev" (.fin (3 / 2)) (by decide) (by decide +kernel)).1
  refine hagree.2 ⟨by decide, by decide, by decide, by decide, ?_⟩
  have hdigits : (someDigits (3 / 2)).SpelledAlike := by decide +kernel
  exact hdigits

/-- A whole number, and a letter outside ASCII in the origin. -/
theorem associatedData_differs :
    stableAssociatedData someDigits ⟨"https://a.example", "req", "login", some "dev",
      some (.fin 2)⟩ ≠
        associatedData someInterpreter "req" "https://a.example" "login" (some (.str "dev"))
          (some (.fin 2)) ∧
      stableAssociatedData someDigits
          ⟨"https://\u00e9.example", "req", "login", some "dev", some (.fin (3 / 2))⟩ ≠
        associatedData someInterpreter "req" "https://\u00e9.example" "login" (some (.str "dev"))
          (some (.fin (3 / 2))) := by
  decide +kernel

end OmniDoer.SecureChannel
