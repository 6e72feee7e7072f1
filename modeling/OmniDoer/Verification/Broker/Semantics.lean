import OmniDoer.Library.PyDict
import OmniDoer.Model.Broker
import OmniDoer.Verification.Requests.Semantics

/-! # Operations of the broker that run alone -/

namespace OmniDoer.Broker

open Py Effects Requests SecureChannel

variable {setting : Setting}

variable (s : State)

theorem store_run {α : Type} (p : StoreProg α) :
    (BrokerProg.store p).run (exec setting) s =
      ((p.run (Requests.exec setting.clock) s.1).1, (p.run (Requests.exec setting.clock) s.1).2,
        s.2) :=
  Prog.run_inl p s

/-- The state after a call of `fill_field`. -/
def afterFill (rid selector value : String) (s : State) : State :=
  (s.1, { s.2 with fills := s.2.fills ++ [⟨rid, selector, value, s.1.tick⟩] })

theorem fillField_run (rid selector value : String) :
    (BrokerProg.fillField rid selector value).run (exec setting) s =
      (setting.browser.fillField s.2.fills.length selector value, afterFill rid selector value s) :=
  Prog.run_ofExcept (exec setting) _ _

theorem currentUrl_run :
    BrokerProg.currentUrl.run (exec setting) s = (.ok setting.browser.currentUrl, s) := rfl

theorem inspectFormAction_run :
    BrokerProg.inspectFormAction.run (exec setting) s =
      (.ok setting.browser.inspectFormAction, s) := rfl

theorem auditAppend_run (eventType : String) (fields : Dict) :
    (BrokerProg.auditAppend eventType fields).run (exec setting) s =
      (.ok (), { s.1 with audit := s.1.audit ++ [⟨eventType, fields⟩] }, s.2) := rfl

theorem getPayload_run (rid : String) :
    (BrokerProg.getPayload rid).run (exec setting) s = (.ok (s.2.payloads.get? rid), s) := rfl

theorem decrypt_run (envelope : Dict) (expected : Expected) :
    (BrokerProg.decrypt envelope expected).run (exec setting) s =
      ((decryptControlEnvelope setting.py setting.channel envelope expected s.2.seen).1, s.1,
        { s.2 with
          seen := (decryptControlEnvelope setting.py setting.channel envelope expected
            s.2.seen).2 }) :=
  Prog.run_ofExcept (exec setting) _ _

/-- The members of the payload that can be received from the response of the request. -/
def receivable (setting : Setting) (receiver : Receiver) (request : ControlRequest) (c : Client) :
    Option Dict :=
  let envelope := request.responseCiphertext.getD []
  if receiver.accepts request.requestType && !envelope.isEmpty then
    match (decryptControlEnvelope setting.py setting.channel envelope
      (expectedFor request envelope) c.seen).1 with
    | .ok (.obj members) => some members
    | _ => none
  else none

variable {rid : String} {s : State} {r : ControlRequest}

variable (receiver : Receiver)

theorem receivable_expireIfNeeded (setting : Setting) (r : ControlRequest) (n : ℕ) (c : Client) :
    receivable setting receiver (expireIfNeeded setting.clock r n).1 c =
      receivable setting receiver r c := by
  obtain ⟨status, t, hcopy⟩ := expireIfNeeded_eq setting.clock r n
  rw [hcopy]
  rfl

/-- The payload has been added, and the request not been touched. -/
structure Received (rid : String) (members : Dict) (s s' : State) : Prop where
  requests : s'.1.requests = s.1.requests
  tick : s'.1.tick = s.1.tick
  payloads : s'.2.payloads = Dict.set s.2.payloads rid (.obj members)
  fills : s'.2.fills = s.2.fills

theorem receive_cases {copy : ControlRequest} {s₁ : State}
    (hget : (BrokerProg.store (RequestStore.get rid)).run (exec setting) s = (.ok copy, s₁)) :
    (receivable setting receiver copy s₁.2 = none ∧
        ∃ e, ((receive receiver rid).run (exec setting) s).1 = .error e) ∨
      ∃ members report s', receivable setting receiver copy s₁.2 = some members ∧
        (receive receiver rid).run (exec setting) s = (.ok report, s') ∧
        Received rid members s₁ s' := by
  have hget' : ((BrokerProg.store (RequestStore.get rid)).run (exec setting) s).1 = .ok copy := by
    rw [hget]
  rw [receive, Prog.run_bind_of_ok hget', hget]
  cases haccepts : receiver.accepts copy.requestType with
  | false => exact .inl ⟨by simp [receivable, haccepts], _, rfl⟩
  | true =>
    cases hempty : (copy.responseCiphertext.getD []).isEmpty with
    | true =>
      simp only [receivable, hempty, Bool.not_true, Bool.and_false, Bool.false_eq_true, if_false]
      exact .inl ⟨trivial, _, rfl⟩
    | false =>
      simp only [receivable, hempty, haccepts, Bool.not_true, Bool.false_eq_true, if_false]
      rw [Prog.run_bind, decrypt_run]
      cases hdecrypt : (decryptControlEnvelope setting.py setting.channel
          (copy.responseCiphertext.getD [])
          (expectedFor copy (copy.responseCiphertext.getD [])) s₁.2.seen).1 with
      | error e => exact .inl ⟨rfl, e, rfl⟩
      | ok payload =>
        cases payload with
        | obj members => exact .inr ⟨members, _, _, rfl, rfl, rfl, rfl, rfl, rfl⟩
        | null | bool | int | float | str | arr => exact .inl ⟨rfl, _, rfl⟩

/-- The payload that a call would use: the one that is kept, or the one that it receives. -/
def availablePayload (setting : Setting) (receiver : Receiver) (rid : String)
    (request : ControlRequest) (c : Client) : Option Json :=
  match notNone (c.payloads.get? rid) with
  | some payload => some payload
  | none => (receivable setting receiver request c).map .obj

def payloadReads (rid : String) (c : Client) : ℕ :=
  if (notNone (c.payloads.get? rid)).isSome then 0 else 1

theorem availablePayload_expireIfNeeded (setting : Setting) (rid : String)
    (r : ControlRequest) (n : ℕ) (c : Client) :
    availablePayload setting receiver rid (expireIfNeeded setting.clock r n).1 c =
      availablePayload setting receiver rid r c := by
  rw [availablePayload, receivable_expireIfNeeded, availablePayload]

/-- The request after `k` reads of it, and nothing typed. -/
structure AfterReads (setting : Setting) (rid : String) (r : ControlRequest) (k : ℕ)
    (s s' : State) : Prop where
  lookup : s'.1.requests.lookup rid = some (fetched setting.clock r s.1.tick k).1
  tick : s'.1.tick = (fetched setting.clock r s.1.tick k).2
  fills : s'.2.fills = s.2.fills

theorem afterReads_get (setting : Setting) (hlookup : s.1.requests.lookup rid = some r) :
    ∃ s', (BrokerProg.store (RequestStore.get rid)).run (exec setting) s =
      (.ok (expireIfNeeded setting.clock r s.1.tick).1, s') ∧
      AfterReads setting rid r 1 s s' ∧ s'.2 = s.2 := by
  have hget : (BrokerProg.store (RequestStore.get rid)).run (exec setting) s = _ := store_run s _
  rw [RequestStore.get_run_of_lookup hlookup] at hget
  refine ⟨_, hget, ⟨?_, rfl, rfl⟩, rfl⟩
  have hid : rid = (expireIfNeeded setting.clock r s.1.tick).1.requestId := by
    rw [expireIfNeeded_requestId, Tables.Table.key_of_lookup hlookup]
  rw [hid]
  exact Tables.Table.lookup_insert_self _ _

theorem payloadFor_cases (setting : Setting) (hlookup : s.1.requests.lookup rid = some r) :
    (availablePayload setting receiver rid r s.2 = none ∧
        ∃ e, ((payloadFor receiver rid).run (exec setting) s).1 = .error e) ∨
      ∃ payload s', availablePayload setting receiver rid r s.2 = some payload ∧
        (payloadFor receiver rid).run (exec setting) s = (.ok payload, s') ∧
        AfterReads setting rid r (payloadReads rid s.2) s s' := by
  unfold payloadFor availablePayload payloadReads
  rw [Prog.run_bind, getPayload_run]
  cases hkept : notNone (s.2.payloads.get? rid) with
  | some payload => exact .inr ⟨payload, s, rfl, by simp only [hkept]; rfl, hlookup, rfl, rfl⟩
  | none =>
    obtain ⟨s₁, hget, hreads, hclient⟩ := afterReads_get setting hlookup
    simp only [hkept]
    rcases receive_cases receiver hget with ⟨hnone, e, he⟩ | ⟨members, report, s', hsome, hrun, hs'⟩
    · rw [receivable_expireIfNeeded, hclient] at hnone
      refine .inl ⟨by rw [hnone]; rfl, e, ?_⟩
      rw [Prog.run_bind_of_error he]
    · rw [receivable_expireIfNeeded, hclient] at hsome
      refine .inr ⟨.obj members, s', by rw [hsome]; rfl, ?_, ?_⟩
      · rw [Prog.run_bind_ok hrun, Prog.run_bind, getPayload_run,
          hs'.payloads, Dict.get?_set, if_pos rfl]
        rfl
      · exact ⟨by rw [hs'.requests]; exact hreads.lookup, hs'.tick.trans hreads.tick,
          hs'.fills.trans hreads.fills⟩

theorem payloadFor_ok_iff (setting : Setting) (hlookup : s.1.requests.lookup rid = some r)
    {payload : Json} :
    ((payloadFor receiver rid).run (exec setting) s).1 = .ok payload ↔
      availablePayload setting receiver rid r s.2 = some payload := by
  rcases payloadFor_cases receiver setting hlookup with ⟨hnone, e, he⟩ | ⟨p, s', hsome, hrun, _⟩
  · simp [hnone, he]
  · simp [hsome, hrun]

theorem AfterReads.trans {s₁ s₂ : State} {k : ℕ} (h : AfterReads setting rid r 1 s s₁)
    (h' : AfterReads setting rid (expireIfNeeded setting.clock r s.1.tick).1 k s₁ s₂) :
    AfterReads setting rid r (k + 1) s s₂ := by
  have hfetched : fetched setting.clock (expireIfNeeded setting.clock r s.1.tick).1 s₁.1.tick k =
      fetched setting.clock r s.1.tick (k + 1) := by
    rw [h.tick]
    exact fetched_succ r s.1.tick k
  exact ⟨hfetched ▸ h'.lookup, hfetched ▸ h'.tick, h'.fills.trans h.fills⟩

theorem AfterReads.passesGuard_iff (hclock : Monotone setting.clock) {s' : State} {k : ℕ}
    (h : AfterReads setting rid r k s s') (allowFulfilled : Bool) :
    (∃ r', RequestStore.PassesGuard setting.clock allowFulfilled rid s'.1 r') ↔
      RequestStore.Actionable allowFulfilled r ∧
        setting.clock (s.1.tick + (k + 1) * readings r) ≤ r.expiresAt := by
  rw [Nat.add_one_mul, ← Nat.add_assoc]
  constructor
  · rintro ⟨r', hlookup, hact, htime⟩
    obtain rfl := Option.some.inj (h.lookup.symm.trans hlookup)
    have hexpires : (fetched setting.clock r s.1.tick k).1.expiresAt = r.expiresAt := by
      clear h hlookup hact htime
      induction k with
      | zero => rfl
      | succ k ih => rw [fetched, expireIfNeeded_expiresAt, ih]
    have hbefore : setting.clock (fetched setting.clock r s.1.tick k).2 ≤ r.expiresAt := by
      rw [← h.tick, ← hexpires]
      exact (hclock (Nat.le_add_right _ _)).trans htime
    have hsame := fetched_of_in_time hclock ((fetched_in_time_iff hclock r s.1.tick k).1 hbefore)
    rw [h.tick, hsame] at htime
    rw [hsame] at hact
    exact ⟨hact, htime⟩
  · rintro ⟨hact, htime⟩
    have hsame := fetched_of_in_time hclock ((hclock (Nat.le_add_right _ _)).trans htime)
    refine ⟨r, ?_, hact, ?_⟩
    · rw [h.lookup, hsame]
    · rwa [h.tick, hsame]

end OmniDoer.Broker
