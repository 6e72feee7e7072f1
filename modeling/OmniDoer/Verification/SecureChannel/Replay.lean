import OmniDoer.Model.SecureChannel

/-! # Replayed envelopes

The replay guard remembers the text of an envelope, while decryption works on the bytes
that the text spells. One guard never lets the same text through twice; it lets the same
bytes through twice when they are spelled in two ways. -/

namespace OmniDoer.SecureChannel

open Py List

theorem unb64_b64 (data : ByteArray) : unb64 (b64 data) = .ok data := by
  have hread := Base64.urlsafeB64decode_digits data.data.toList
  unfold unb64 b64
  dsimp only
  rw [hread]
  rfl

def Canonical (envelope : Dict) (key : String) : Prop :=
  ∃ data, envelope.get? key = some (.str (b64 data))

theorem Canonical.get?_eq {envelope envelope' : Dict} {key : String} (h : Canonical envelope key)
    (h' : Canonical envelope' key) (hbytes : bytesOf envelope key = bytesOf envelope' key) :
    envelope.get? key = envelope'.get? key := by
  obtain ⟨data, hdata⟩ := h
  obtain ⟨data', hdata'⟩ := h'
  simp only [bytesOf, hdata, hdata', unb64_b64, Except.ok.injEq] at hbytes
  rw [hdata, hdata', hbytes]

/-- A call of `decrypt_control_envelope`. -/
structure OpenCall where
  envelope : Dict
  expected : Expected

def OpenCall.run (py : Interpreter) (channel : Channel) (call : OpenCall) (seen : List String) :
    Except Error Json × Option (List String) :=
  decryptControlEnvelope py channel call.envelope call.expected (some seen)

def OpenCall.marker (py : Interpreter) (channel : Channel) (call : OpenCall) : String :=
  ReplayGuard.marker py channel.sha256 call.envelope

/-- What one call does to the guard: nothing, or one new marker, which a call that
succeeds has always left. -/
inductive Guarded (py : Interpreter) (channel : Channel) (call : OpenCall) (seen : List String) :
    Except Error Json × Option (List String) → Prop
  | refused (e : Error) : Guarded py channel call seen (.error e, some seen)
  | marked (outcome : Except Error Json)
      (hid : call.envelope.get? "request_id" = some (.str call.expected.requestId))
      (hnew : call.marker py channel ∉ seen) :
      Guarded py channel call seen (outcome, some (call.marker py channel :: seen))

variable (seen : List String)

theorem decryptWith_guarded (py : Interpreter) (channel : Channel)
    (opening : Dict → ByteArray → Except Error Json) (call : OpenCall) :
    Guarded py channel call seen
      (decryptWith py channel.sha256 opening call.envelope call.expected (some seen)) := by
  unfold decryptWith
  cases hmeta : checkMetadata call.envelope call.expected with
  | error e => exact .refused e
  | ok =>
    have hid : call.envelope.get? "request_id" = some (.str call.expected.requestId) := by
      unfold checkMetadata at hmeta
      split at hmeta
      · cases hmeta
      · rename_i hids
        rw [Bool.not_eq_true, Bool.not_eq_false', sameIds, Bool.and_eq_true, Bool.and_eq_true]
          at hids
        exact (Json.eqStr_iff _ _).1 hids.1.1
    cases aadFields call.envelope call.expected with
    | error e => exact .refused e
    | ok fields =>
      simp only [ReplayGuard.checkAndMark]
      by_cases hseen : call.marker py channel ∈ seen
      · have hmem : ReplayGuard.marker py channel.sha256 call.envelope ∈ seen := hseen
        simp only [hmem]
        exact .refused _
      · have hmem : ReplayGuard.marker py channel.sha256 call.envelope ∉ seen := hseen
        simp only [hmem]
        exact .marked _ hid hseen

theorem OpenCall.run_guarded (py : Interpreter) (channel : Channel) (call : OpenCall) :
    Guarded py channel call seen (call.run py channel seen) := by
  unfold OpenCall.run decryptControlEnvelope
  split
  · exact decryptWith_guarded seen py channel channel.openWeb call
  · exact decryptWith_guarded seen py channel channel.openRaw call

section Runs

variable {py : Interpreter} {channel : Channel}

/-- The calls of a run that succeed, the guard being handed from call to call. -/
def opened (py : Interpreter) (channel : Channel) : List OpenCall → List String → List OpenCall
  | [], _ => []
  | call :: rest, seen =>
    match call.run py channel seen with
    | (.ok _, seen') => call :: opened py channel rest (seen'.getD seen)
    | (.error _, seen') => opened py channel rest (seen'.getD seen)

theorem opened_sublist (calls : List OpenCall) :
    (opened py channel calls seen).Sublist calls := by
  induction calls generalizing seen with
  | nil => exact .slnil
  | cons first rest ih =>
    unfold opened
    split
    · exact (ih _).cons_cons first
    · exact (ih _).cons first

theorem not_mem_of_mem_opened {calls : List OpenCall} {seen : List String} {call : OpenCall}
    (h : call ∈ opened py channel calls seen) :
    call.marker py channel ∉ seen ∧
      call.envelope.get? "request_id" = some (.str call.expected.requestId) := by
  induction calls generalizing seen with
  | nil => cases h
  | cons first rest ih =>
    unfold opened at h
    have hfirst := OpenCall.run_guarded seen py channel first
    generalize first.run py channel seen = outcome at h hfirst
    cases hfirst with
    | refused e => exact ih h
    | marked outcome hid hnew =>
      have hlater (hmem : call ∈ opened py channel rest (first.marker py channel :: seen)) :
          call.marker py channel ∉ seen ∧
            call.envelope.get? "request_id" = some (.str call.expected.requestId) :=
        ⟨fun hseen => (ih hmem).1 (mem_cons_of_mem _ hseen), (ih hmem).2⟩
      cases outcome with
      | error e => exact hlater h
      | ok value =>
        rcases mem_cons.1 h with rfl | hmem
        · exact ⟨hnew, hid⟩
        · exact hlater hmem

theorem pairwise_marker_opened (calls : List OpenCall) :
    (opened py channel calls seen).Pairwise fun c d =>
      c.marker py channel ≠ d.marker py channel := by
  induction calls generalizing seen with
  | nil => exact .nil
  | cons first rest ih =>
    unfold opened
    have hfirst := OpenCall.run_guarded seen py channel first
    generalize first.run py channel seen = outcome at hfirst
    cases hfirst with
    | refused e => exact ih seen
    | marked outcome hid hnew =>
      cases outcome with
      | error e => exact ih _
      | ok value =>
        refine .cons (fun call hcall heq => ?_) (ih _)
        exact (not_mem_of_mem_opened hcall).1 (heq ▸ mem_cons_self)

end Runs

/-- The two calls are for one request and one pair of nonce and ciphertext bytes. -/
def SameMessage (c d : OpenCall) : Prop :=
  c.expected.requestId = d.expected.requestId ∧
    bytesOf c.envelope "nonce" = bytesOf d.envelope "nonce" ∧
    bytesOf c.envelope "ciphertext" = bytesOf d.envelope "ciphertext"

/-- In every run of calls with one guard, from whatever it remembers, no two successful
calls decrypt the same bytes for one request, provided every envelope spells its nonce
and its ciphertext as the encoder does. -/
theorem message_opened_once (py : Interpreter) (cipher : Cipher) (calls : List OpenCall)
    (seen : List String)
    (hcanonical : ∀ call ∈ calls,
      Canonical call.envelope "nonce" ∧ Canonical call.envelope "ciphertext") :
    (opened py cipher.channel calls seen).Pairwise fun c d => ¬ SameMessage c d := by
  refine (pairwise_marker_opened seen calls).imp_of_mem ?_
  rintro c d hc hd hne ⟨hid, hnonce, hciphertext⟩
  apply hne
  have hcspelled := hcanonical c ((opened_sublist seen calls).subset hc)
  have hdspelled := hcanonical d ((opened_sublist seen calls).subset hd)
  have hids : c.envelope.get? "request_id" = d.envelope.get? "request_id" := by
    rw [(not_mem_of_mem_opened hc).2, (not_mem_of_mem_opened hd).2, hid]
  have hnonces := hcspelled.1.get?_eq hdspelled.1 hnonce
  have hciphertexts := hcspelled.2.get?_eq hdspelled.2 hciphertext
  simp only [OpenCall.marker, ReplayGuard.marker, ReplayGuard.field, hids, hnonces, hciphertexts]

def plainCipher : Cipher where
  sha256 := id
  webKey := fun _ _ => .ok .empty
  rawKey := fun _ _ => .ok .empty
  decrypt := fun _ _ ciphertext _ => .ok ciphertext
  loads := fun _ => .ok .null

/-- An envelope for one request with the given nonce and ciphertext. -/
def loginCall (nonce ciphertext : String) : OpenCall where
  envelope :=
    [("request_id", .str "req"), ("origin", .str "https://a.example"),
      ("request_type", .str "login"), ("nonce", .str nonce), ("ciphertext", .str ciphertext)]
  expected := ⟨"req", "https://a.example", "login", none, none⟩

/-- Of two envelopes and the first one again, the two are opened. -/
theorem message_opened_once_login :
    let calls := [loginCall "AAAA" "QQ", loginCall "AAAB" "QQ", loginCall "AAAA" "QQ"]
    (opened .ascii plainCipher.channel calls []).length = 2 ∧
      (opened .ascii plainCipher.channel calls []).Pairwise fun c d => ¬ SameMessage c d := by
  refine ⟨by decide +kernel, message_opened_once .ascii plainCipher _ [] ?_⟩
  have hspelled (bytes : List UInt8) (text : String) (h : b64 ⟨bytes.toArray⟩ = text) :
      ∃ data, some (Json.str text) = some (.str (b64 data)) := ⟨⟨bytes.toArray⟩, by rw [h]⟩
  intro call hcall
  simp only [mem_cons, not_mem_nil, or_false] at hcall
  rcases hcall with rfl | rfl | rfl
  · exact ⟨hspelled [0, 0, 0] _ (by decide +kernel), hspelled [65] _ (by decide +kernel)⟩
  · exact ⟨hspelled [0, 0, 1] _ (by decide +kernel), hspelled [65] _ (by decide +kernel)⟩
  · exact ⟨hspelled [0, 0, 0] _ (by decide +kernel), hspelled [65] _ (by decide +kernel)⟩

/-- Two spellings of one ciphertext, which differ in the bits that the last digit has to
spare, are both opened. -/
theorem respelled_message_opened_twice :
    let calls := [loginCall "AAAA" "QQ", loginCall "AAAA" "QR"]
    (opened .ascii plainCipher.channel calls []).length = 2 ∧
      bytesOf (loginCall "AAAA" "QQ").envelope "ciphertext" = .ok ⟨#[65]⟩ ∧
      bytesOf (loginCall "AAAA" "QR").envelope "ciphertext" = .ok ⟨#[65]⟩ ∧
      ¬ (opened .ascii plainCipher.channel calls []).Pairwise fun c d => ¬ SameMessage c d := by
  intro calls
  have hlength : (opened .ascii plainCipher.channel calls []).length = 2 := by decide +kernel
  have hfirst : bytesOf (loginCall "AAAA" "QQ").envelope "ciphertext" = .ok ⟨#[65]⟩ := by
    decide +kernel
  have hsecond : bytesOf (loginCall "AAAA" "QR").envelope "ciphertext" = .ok ⟨#[65]⟩ := by
    decide +kernel
  refine ⟨hlength, hfirst, hsecond, ?_⟩
  intro h
  exact rel_of_pairwise_cons h (mem_singleton_self _) ⟨rfl, rfl, hfirst.trans hsecond.symm⟩

end OmniDoer.SecureChannel
