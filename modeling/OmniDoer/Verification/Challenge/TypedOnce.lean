import OmniDoer.Model.ChallengeRelay
import OmniDoer.Verification.Broker.Semantics

/-! # How often a challenge answer is typed

The relay types the answer first and asks the store afterwards whether the request was
still open. An answer is typed once, in time and by a call that returns, exactly in the
runs where the store would have agreed at every attempt. -/

namespace OmniDoer.ChallengeRelay

open Py Effects Tables Requests Broker RequestStore Transition

variable {setting : Setting} {rid : String}

/-- The calls of `fill_field` with the answer to the request. -/
def fillsOf (rid : String) (c : Client) : List Fill := c.fills.filter fun f => f.requestId = rid

section Steady

variable {P : ℕ → ControlRequest → Prop} {R : List Fill → Prop}

/-- A property of the stored request, and one of what has been typed. -/
def Steady (P : ℕ → ControlRequest → Prop) (rid : String) (R : List Fill → Prop) (s : State) :
    Prop :=
  Stores P rid s.1 ∧ R s.2.fills

theorem auditAppend_steady (eventType : String) (fields : Dict) :
    (BrokerProg.auditAppend eventType fields).Preserves (exec setting) (Steady P rid R) := by
  intro s hs
  exact hs

variable (h : RecordInvariant setting.clock P)
include h

theorem store_steady {α : Type} {id : String} {post : Memory → α → Prop} {p : StoreProg α}
    (hp : p.Returns (lifecycle id fun _ => False) post Memory.empty) :
    (BrokerProg.store p).Preserves (exec setting) (Steady P rid R) := by
  intro s hs
  rw [store_run]
  exact ⟨Prog.Returns.run_stores h (fun _ _ _ hfalse => hfalse.elim) hp hs.1, hs.2⟩

theorem receive_steady (receiver : Receiver) (id : String) :
    (receive receiver id).Preserves (exec setting) (Steady P rid R) := by
  refine Prog.Preserves.bind (store_steady h get_returns) fun request => ?_
  simp only
  split
  · exact .raise _
  · split
    · exact .raise _
    · refine Prog.Preserves.bind (.op (fun _ hs => hs) fun _ => .ofExcept _) fun payload => ?_
      refine Prog.Preserves.bind (.op (fun _ hs => hs) fun _ => .pure _) fun _ => ?_
      refine Prog.Preserves.bind (.ofExcept _) fun members => ?_
      exact .bind (auditAppend_steady _ _) fun _ => .pure _

theorem injectableValue_steady (id : String) :
    (injectableValue id).Preserves (exec setting) (Steady P rid R) := by
  refine Prog.Preserves.bind (store_steady h get_returns) fun request => ?_
  refine Prog.Preserves.bind ?_ fun payload => ?_
  · refine Prog.Preserves.bind (.op (fun _ hs => hs) fun _ => .pure _) fun kept => ?_
    split
    · exact .pure _
    · refine Prog.Preserves.bind (receive_steady h receiver id) fun _ => ?_
      refine Prog.Preserves.bind (.op (fun _ hs => hs) fun _ => .pure _) fun payload => ?_
      split
      · exact .pure _
      · exact .raise _
  refine Prog.Preserves.bind (.ofExcept _) fun members => ?_
  split
  · exact .pure _
  · exact .raise _

theorem reportInjected_steady (id : String) (request : ControlRequest) :
    (reportInjected id request).Preserves (exec setting) (Steady P rid R) :=
  .bind (store_steady h markChallengeCompleted_returns) fun _ =>
    .bind (auditAppend_steady _ _) fun _ => .pure _

end Steady

def RelayCall.Keeps (rid : String) : RelayCall → Prop
  | .store call => call.isCreate = true → call.target ≠ some rid
  | _ => True

def RelayCall.Types (id : String) : RelayCall → Prop
  | .injectResponseIfApplicable requestId _ => requestId = id
  | _ => False

theorem RelayCall.step_steady {P : ℕ → ControlRequest → Prop} {R : List Fill → Prop}
    (h : RecordInvariant setting.clock P) {call : RelayCall} (hcall : call.Keeps rid)
    (hR : ∀ fills f, call.Types f.requestId → R fills → R (fills ++ [f])) {s : State}
    (hs : Steady P rid R s) : Steady P rid R (call.step setting s) := by
  cases call with
  | receiveUserResponse id =>
    rw [step, prog, Prog.run_map_snd]
    exact receive_steady h receiver id s hs
  | injectResponseIfApplicable id selector =>
    rw [step, prog, Prog.run_map_snd]
    refine Prog.Preserves.bind (injectableValue_steady h id) (fun v => ?_) s hs
    exact .bind (.op (fun s hs => ⟨hs.1, hR _ _ rfl hs.2⟩) fun _ => .ofExcept _)
      fun _ => reportInjected_steady h id v.1
  | markCompletedByUser id =>
    rw [step, prog, Prog.run_map_snd]
    exact Prog.Preserves.bind (store_steady h markChallengeCompleted_returns)
      (fun _ => .bind (auditAppend_steady _ _) fun _ => .pure _) s hs
  | store call =>
    rw [step, prog, Prog.run_map_snd, store_run]
    exact ⟨call.run_stores h setting.py hcall hs.1, hs.2⟩

variable (hclock : Monotone setting.clock)

include hclock in
theorem reportInjected_run (request : ControlRequest) (s : State) :
    ((∃ e, ((reportInjected rid request).run (exec setting) s).1 = .error e) ∧
        ¬ ∃ r, RequestStore.PassesGuard setting.clock true rid s.1 r) ∨
      ∃ r t, RequestStore.PassesGuard setting.clock true rid s.1 r ∧
        (∃ report, ((reportInjected rid request).run (exec setting) s).1 = .ok report) ∧
        ((reportInjected rid request).run (exec setting) s).2.1.requests.lookup rid =
          some ((Transition.completeChallenge.apply r).touch t) := by
  have hstore : (BrokerProg.store (markChallengeCompleted rid)).run (exec setting) s =
      _ := store_run s _
  rcases markChallengeCompleted_run hclock rid s.1 with
    ⟨⟨e, he⟩, hguard⟩ | ⟨r, t, hguard, hok, hlookup⟩
  · refine .inl ⟨⟨e, ?_⟩, hguard⟩
    rw [reportInjected, Prog.run_bind_of_error ((congrArg Prod.fst hstore).trans he)]
  · refine .inr ⟨r, t, hguard, ?_⟩
    rw [reportInjected, Prog.run_bind_of_ok ((congrArg Prod.fst hstore).trans hok), hstore]
    exact ⟨⟨_, rfl⟩, hlookup⟩

/-- The browser takes the text, and the store lets the completion pass. -/
def Accepted (setting : Setting) (rid selector value : String) (s : State) : Prop :=
  setting.browser.fillField s.2.fills.length selector value = .ok () ∧
    ∃ r, RequestStore.PassesGuard setting.clock true rid s.1 r

/-- The three ways in which an injection can go: there is nothing to type; the answer is
typed and the call raises; the answer is typed and the stored request completed. -/
inductive Injection (setting : Setting) (rid : String) (selector : Option String) (s : State) :
    Prop where
  | unavailable (e : Error) (s' : State)
      (hvalue : (injectableValue rid).run (exec setting) s = (.error e, s'))
      (hrun : (injectResponseIfApplicable setting.py rid selector).run (exec setting) s =
        (.error e, s'))
  | refused (request : ControlRequest) (value : Json) (s' : State) (e : Error)
      (hvalue : (injectableValue rid).run (exec setting) s = (.ok (request, value), s'))
      (hnot : ¬ Accepted setting rid (targetSelector selector request) (value.toStr setting.py) s')
      (hrun : ((injectResponseIfApplicable setting.py rid selector).run (exec setting) s).1 =
        .error e)
  | completed (request : ControlRequest) (value : Json) (s' : State) (report : Dict)
      (r : ControlRequest) (t : ℚ)
      (hvalue : (injectableValue rid).run (exec setting) s = (.ok (request, value), s'))
      (hyes : Accepted setting rid (targetSelector selector request) (value.toStr setting.py) s')
      (hguard : RequestStore.PassesGuard setting.clock true rid s'.1 r)
      (hrun : ((injectResponseIfApplicable setting.py rid selector).run (exec setting) s).1 =
        .ok report)
      (hlookup : ((injectResponseIfApplicable setting.py rid selector).run
        (exec setting) s).2.1.requests.lookup rid =
          some ((Transition.completeChallenge.apply r).touch t))

variable {request : ControlRequest} {value : Json} {s s' : State}

variable (hvalue : (injectableValue rid).run (exec setting) s = (.ok (request, value), s'))

include hvalue in
theorem injectResponseIfApplicable_run_value (selector : Option String) :
    (injectResponseIfApplicable setting.py rid selector).run (exec setting) s =
      match setting.browser.fillField s'.2.fills.length (targetSelector selector request)
        (value.toStr setting.py) with
      | .ok _ => (reportInjected rid request).run (exec setting)
          (afterFill rid (targetSelector selector request) (value.toStr setting.py) s')
      | .error e =>
        (.error e, afterFill rid (targetSelector selector request)
          (value.toStr setting.py) s') := by
  rw [injectResponseIfApplicable, Prog.run_bind_ok hvalue]
  rw [Prog.run_bind, fillField_run]
  cases setting.browser.fillField s'.2.fills.length (targetSelector selector request)
      (value.toStr setting.py) <;> rfl

include hclock in
theorem injection (rid : String) (selector : Option String)
    (s : State) : Injection setting rid selector s := by
  cases hvalue : (injectableValue rid).run (exec setting) s with
  | mk result s' =>
    cases result with
    | error e =>
      refine .unavailable e s' hvalue ?_
      rw [injectResponseIfApplicable, Prog.run_bind_error hvalue]
    | ok v =>
      obtain ⟨request, value⟩ := v
      have hrun := injectResponseIfApplicable_run_value hvalue selector
      cases hfill : setting.browser.fillField s'.2.fills.length
          (targetSelector selector request) (value.toStr setting.py) with
      | error e =>
        rw [hfill] at hrun
        refine .refused request value s' e hvalue (fun hyes => ?_) (congrArg Prod.fst hrun)
        cases hfill.symm.trans hyes.1
      | ok u =>
        rw [hfill] at hrun
        rcases reportInjected_run hclock request
            (afterFill rid (targetSelector selector request) (value.toStr setting.py) s')
          with ⟨⟨e, he⟩, hguard⟩ | ⟨r, t, hguard, ⟨report, hok⟩, hlookup⟩
        · exact .refused request value s' e hvalue (fun hyes => hguard hyes.2)
            ((congrArg Prod.fst hrun).trans he)
        · refine .completed request value s' report r t hvalue ⟨hfill, r, hguard⟩ hguard
            ((congrArg Prod.fst hrun).trans hok) ?_
          rw [hrun]
          exact hlookup

theorem anything_recordInvariant : RecordInvariant setting.clock fun _ _ => True :=
  ⟨fun _ _ => trivial, fun _ _ => trivial, fun _ _ _ => trivial⟩

theorem fills_of_steady {α : Type} {p : BrokerProg α}
    (h : p.Preserves (exec setting) (Steady (fun _ _ => True) "" (· = s.2.fills))) :
    (p.run (exec setting) s).2.2.fills = s.2.fills :=
  (h s ⟨fun _ _ => trivial, rfl⟩).2

theorem injectableValue_fills_of_run {id : String}
    {result : Except Error (ControlRequest × Json)}
    (h : (injectableValue id).run (exec setting) s = (result, s')) : s'.2.fills = s.2.fills := by
  have hfills : ((injectableValue id).run (exec setting) s).2.2.fills = s.2.fills :=
    fills_of_steady (injectableValue_steady anything_recordInvariant id)
  rwa [h] at hfills

include hvalue in
theorem injectResponseIfApplicable_fills (selector : Option String) :
    ((injectResponseIfApplicable setting.py rid selector).run (exec setting) s).2.2.fills =
      s.2.fills ++ [⟨rid, targetSelector selector request, value.toStr setting.py, s'.1.tick⟩] := by
  rw [injectResponseIfApplicable_run_value hvalue selector, ← injectableValue_fills_of_run hvalue]
  split
  · exact fills_of_steady (reportInjected_steady anything_recordInvariant rid request)
  · rfl

/-- If the call injects the answer and raises, nothing was typed. -/
def Silent (setting : Setting) (rid : String) (s : State) : RelayCall → Prop
  | .injectResponseIfApplicable id selector =>
    id = rid →
      (∃ report, ((injectResponseIfApplicable setting.py rid selector).run (exec setting) s).1 =
        .ok report) ∨
      ((injectResponseIfApplicable setting.py rid selector).run (exec setting) s).2.2.fills =
        s.2.fills
  | _ => True

/-- The value that an injection would type: from the kept payload, or from the response of
the request. -/
def answer (setting : Setting) (rid : String) (request : ControlRequest) (c : Client) :
    Option Json :=
  match availablePayload setting receiver rid request c with
  | some (.obj members) =>
    if (payloadValue members).truthy then some (payloadValue members) else none
  | _ => none

/-- The browser takes the value, and the request can still be completed: it is not used
other than by its response, and the clock, which is read when the request is fetched and
by the guard, does not pass its expiry. -/
def CanInject (setting : Setting) (rid : String) (selector : Option String) (s : State)
    (request : ControlRequest) (value : Json) : Prop :=
  setting.browser.fillField s.2.fills.length (targetSelector selector request)
      (value.toStr setting.py) = .ok () ∧
    (request.used = true → request.status = .fulfilled) ∧
    setting.clock (s.1.tick + (payloadReads rid s.2 + 2) * readings request) ≤ request.expiresAt

/-- An injection that has a value to type can type it. -/
def Ready (setting : Setting) (rid : String) (s : State) : RelayCall → Prop
  | .injectResponseIfApplicable id selector =>
    id = rid → ∀ request ∈ s.1.requests.lookup rid, ∀ value ∈ answer setting rid request s.2,
      CanInject setting rid selector s request value
  | _ => True

variable {r : ControlRequest}

theorem injectableValue_cases {s : State}
    (hlookup : s.1.requests.lookup rid = some r) :
    (answer setting rid r s.2 = none ∧
        ∃ e, ((injectableValue rid).run (exec setting) s).1 = .error e) ∨
      ∃ value s', answer setting rid r s.2 = some value ∧
        (injectableValue rid).run (exec setting) s =
          (.ok ((expireIfNeeded setting.clock r s.1.tick).1, value), s') ∧
        AfterReads setting rid r (payloadReads rid s.2 + 1) s s' := by
  obtain ⟨s₁, hget, hreads, hclient⟩ := afterReads_get setting hlookup
  rw [injectableValue, Prog.run_bind_ok hget]
  have hlookup₁ : s₁.1.requests.lookup rid =
      some (expireIfNeeded setting.clock r s.1.tick).1 := hreads.lookup
  have havailable := availablePayload_expireIfNeeded receiver setting rid r s.1.tick s.2
  unfold answer
  rw [← havailable, ← hclient]
  rcases payloadFor_cases receiver setting hlookup₁ with
    ⟨hnone, e, he⟩ | ⟨payload, s', hsome, hrun, hreads'⟩
  · refine .inl ⟨by rw [hnone], e, ?_⟩
    rw [Prog.run_bind_of_error he]
  · rw [Prog.run_bind_ok hrun, hsome]
    cases payload with
    | obj members =>
      by_cases hvalue : (payloadValue members).truthy = true
      · refine .inr ⟨payloadValue members, s', if_pos hvalue, ?_, hreads.trans hreads'⟩
        simp only [payloadDict, Prog.ofExcept, Prog.pure_bind, if_pos hvalue]
        rfl
      · refine .inl ⟨if_neg hvalue, ⟨.valueError, "challenge payload has no injectable value"⟩, ?_⟩
        simp only [payloadDict, Prog.ofExcept, Prog.pure_bind, if_neg hvalue]
        rfl
    | null | bool | int | float | str | arr => exact .inl ⟨rfl, _, rfl⟩

include hclock in
theorem accepted_iff_canInject (selector : Option String) {request r : ControlRequest}
    (hvalue : (injectableValue rid).run (exec setting) s = (.ok (request, value), s'))
    (hlookup : s.1.requests.lookup rid = some r) :
    answer setting rid r s.2 = some value ∧
      (Accepted setting rid (targetSelector selector request) (value.toStr setting.py) s' ↔
        CanInject setting rid selector s r value) := by
  rcases injectableValue_cases hlookup with ⟨_, e, he⟩ | ⟨value', s'', hsome, hrun, hreads⟩
  · rw [hvalue] at he
    cases he
  · cases hvalue.symm.trans hrun
    refine ⟨hsome, ?_⟩
    have hselector : targetSelector selector (expireIfNeeded setting.clock r s.1.tick).1 =
        targetSelector selector r := by
      obtain ⟨status, t, hcopy⟩ := expireIfNeeded_eq setting.clock r s.1.tick
      rw [hcopy]
      rfl
    rw [Accepted, hreads.passesGuard_iff hclock, hselector, hreads.fills, CanInject]
    simp [Actionable]

include hvalue in
include hclock in
theorem ready_inject_iff {selector : Option String} :
    (∀ r ∈ s.1.requests.lookup rid, ∀ value ∈ answer setting rid r s.2,
        CanInject setting rid selector s r value) ↔
      Accepted setting rid (targetSelector selector request) (value.toStr setting.py) s' := by
  obtain ⟨copy, hget, _⟩ := Prog.run_bind_eq_ok (congrArg Prod.fst hvalue)
  rw [store_run] at hget
  obtain ⟨r, hlookup, _⟩ := get_ok hget
  obtain ⟨hanswer, hiff⟩ := accepted_iff_canInject hclock selector hvalue hlookup
  rw [hiff]
  refine ⟨fun h => h r hlookup value hanswer, fun h r' hr' value' hvalue' => ?_⟩
  obtain rfl := Option.some.inj (hlookup.symm.trans hr')
  obtain rfl := Option.some.inj (hanswer.symm.trans hvalue')
  exact h

include hclock in
theorem silent_iff_ready (s : State) (call : RelayCall) :
    Silent setting rid s call ↔ Ready setting rid s call := by
  cases call with
  | receiveUserResponse | markCompletedByUser | store => exact Iff.rfl
  | injectResponseIfApplicable id selector =>
    refine imp_congr_right fun _ => ?_
    cases injection hclock rid selector s with
    | unavailable e s' hvalue hrun =>
      rw [hrun]
      refine ⟨fun _ r hr value hanswer => ?_, fun _ => .inr (injectableValue_fills_of_run hvalue)⟩
      rcases injectableValue_cases hr with ⟨hnone, _⟩ | ⟨value, s'', _, hrun, _⟩
      · cases hnone.symm.trans hanswer
      · cases hvalue.symm.trans hrun
    | refused request value s' e hvalue hnot hrun =>
      rw [ready_inject_iff hclock hvalue, injectResponseIfApplicable_fills hvalue selector, hrun]
      simpa using hnot
    | completed request value s' report r t hvalue hyes hguard hrun hlookup =>
      rw [ready_inject_iff hclock hvalue]
      exact ⟨fun _ => hyes, fun _ => .inl ⟨report, hrun⟩⟩

def Spent (r : ControlRequest) : Prop :=
  r.oneTimeUse = true ∧ r.used = true ∧ r.status ≠ .fulfilled

theorem spent_recordInvariant {clock : ℕ → ℚ} : RecordInvariant clock fun _ r => Spent r where
  mono := fun _ h => h
  touch := fun _ h => h
  transition := by
    rintro n r now t _ ht ⟨hone, hused, hstatus⟩
    cases t with
    | expire => exact ⟨hone, hused, by simp [apply]⟩
    | cancel reason => exact ⟨hone, hone, by simp [apply]⟩
    | submit | approve | deny | release | recordFrame | consume => simp [Enabled, hused] at ht
    | completeChallenge => simp [Enabled, hused, hstatus] at ht

def ExpiresAt (T : ℚ) (r : ControlRequest) : Prop := r.oneTimeUse = true ∧ r.expiresAt = T

theorem expiresAt_recordInvariant {clock : ℕ → ℚ} (T : ℚ) :
    RecordInvariant clock fun _ r => ExpiresAt T r where
  mono := fun _ h => h
  touch := fun _ h => h
  transition := by
    rintro n r now t _ _ ⟨hone, hT⟩
    exact ⟨by cases t <;> exact hone, by rw [apply_expiresAt, hT]⟩

/-- The answer has not been typed yet, or it was typed once and the request is spent. -/
structure Progress (setting : Setting) (rid : String) (T : ℚ) (s : State) : Prop where
  record : Stores (fun _ r => ExpiresAt T r) rid s.1
  inTime : ∀ f ∈ fillsOf rid s.2, setting.clock f.tick ≤ T
  once : fillsOf rid s.2 = [] ∨ (fillsOf rid s.2).length = 1 ∧ Stores (fun _ r => Spent r) rid s.1

theorem Progress.quiet {T : ℚ} (h : Progress setting rid T s)
    (hfills : fillsOf rid s'.2 = fillsOf rid s.2)
    (hstores : ∀ P, RecordInvariant setting.clock P → Stores P rid s.1 → Stores P rid s'.1) :
    Progress setting rid T s' where
  record := hstores _ (expiresAt_recordInvariant T) h.record
  inTime := by
    rw [hfills]
    exact h.inTime
  once := by
    rw [hfills]
    exact h.once.imp id fun ⟨hlen, hspent⟩ => ⟨hlen, hstores _ spent_recordInvariant hspent⟩

include hclock in
theorem Progress.typed {T : ℚ} {s s' s'' : State} (h : Progress setting rid T s)
    {selector value : String} {t : ℚ}
    (hbefore : ∀ P, RecordInvariant setting.clock P → Stores P rid s.1 → Stores P rid s'.1)
    (hguard : RequestStore.PassesGuard setting.clock true rid s'.1 r)
    (hfills : s''.2.fills = s.2.fills ++ [⟨rid, selector, value, s'.1.tick⟩])
    (hlookup : s''.1.requests.lookup rid = some ((Transition.completeChallenge.apply r).touch t)) :
    Progress setting rid T s'' := by
  obtain ⟨hone, hT⟩ := hbefore _ (expiresAt_recordInvariant T) h.record r hguard.1
  have hnone : fillsOf rid s.2 = [] := by
    rcases h.once with hnil | ⟨_, hspent⟩
    · exact hnil
    · obtain ⟨-, hone', hnot⟩ := hbefore _ spent_recordInvariant hspent r hguard.1
      exact absurd (hguard.2.1 hone').2 hnot
  have hfillsOf : fillsOf rid s''.2 = [⟨rid, selector, value, s'.1.tick⟩] := by
    rw [fillsOf, hfills]
    simpa [fillsOf] using hnone
  refine ⟨?_, ?_, .inr ⟨by rw [hfillsOf]; rfl, ?_⟩⟩
  · intro r' hr'
    rw [hlookup] at hr'
    cases hr'
    exact ⟨hone, hT⟩
  · intro f hf
    rw [hfillsOf, List.mem_singleton] at hf
    subst f
    -- the guard read the clock after the answer was typed
    calc setting.clock s'.1.tick
        ≤ setting.clock (s'.1.tick + readings r) := hclock (Nat.le_add_right _ _)
      _ ≤ r.expiresAt := hguard.2.2
      _ = T := hT
  · intro r' hr'
    rw [hlookup] at hr'
    cases hr'
    exact ⟨hone, hone, by simp [apply]⟩

include hclock in
theorem Progress.step {T : ℚ} {s : State}
    (h : Progress setting rid T s) {call : RelayCall} (hready : Ready setting rid s call)
    (hcall : call.Keeps rid) : Progress setting rid T (call.step setting s) := by
  have hstores (P : ℕ → ControlRequest → Prop) (hP : RecordInvariant setting.clock P)
      (hs : Stores P rid s.1) : Stores P rid (call.step setting s).1 :=
    (RelayCall.step_steady (R := fun _ => True) hP hcall (fun _ _ _ _ => trivial) ⟨hs, trivial⟩).1
  by_cases htypes : call.Types rid
  · cases call with
    | receiveUserResponse | markCompletedByUser | store => exact htypes.elim
    | injectResponseIfApplicable id selector =>
      obtain rfl : id = rid := htypes
      have hready := hready rfl
      have hstep : (RelayCall.injectResponseIfApplicable id selector).step setting s =
          ((injectResponseIfApplicable setting.py id selector).run (exec setting) s).2 :=
        Prog.run_map_snd _ _ _
      cases injection hclock id selector s with
      | unavailable e s' hvalue hrun =>
        refine h.quiet ?_ hstores
        rw [hstep, hrun, fillsOf, injectableValue_fills_of_run hvalue]
        rfl
      | refused request value s' e hvalue hnot hrun =>
        exact absurd ((ready_inject_iff hclock hvalue).1 hready) hnot
      | completed request value s' report r t hvalue hyes hguard hrun hlookup =>
        have hfills := injectResponseIfApplicable_fills hvalue selector
        rw [← hstep] at hfills hlookup
        refine h.typed hclock (fun P hP hs => ?_) hguard hfills hlookup
        have hsteady := injectableValue_steady (R := fun _ => True) hP id s ⟨hs, trivial⟩
        rw [hvalue] at hsteady
        exact hsteady.1
  · refine h.quiet ?_ hstores
    have hsteady : Steady (fun _ _ => True) rid
        (fun fills => (fills.filter fun f => f.requestId = rid) = fillsOf rid s.2)
        (call.step setting s) := by
      refine RelayCall.step_steady anything_recordInvariant hcall ?_ ⟨fun _ _ => trivial, rfl⟩
      intro fills f hf hfills
      have hne : f.requestId ≠ rid := fun he => htypes (he ▸ hf)
      simpa [hne] using hfills
    exact hsteady.2

/-- Along the run the answer is typed at most once and in time, which is judged by the next
reading of the clock, and never by a call that raises. -/
structure TypedOnce (setting : Setting) (rid : String) (T : ℚ) (s : State)
    (calls : List RelayCall) : Prop where
  once : (fillsOf rid (calls.foldl (RelayCall.step setting) s).2).length ≤ 1
  inTime : ∀ f ∈ fillsOf rid (calls.foldl (RelayCall.step setting) s).2, setting.clock f.tick ≤ T
  silent : Along (RelayCall.step setting) (Silent setting rid) s calls

include hclock in
theorem typedOnce_iff {T : ℚ} {s : State}
    (hrecord : Stores (fun _ r => ExpiresAt T r) rid s.1) (hfresh : fillsOf rid s.2 = [])
    {calls : List RelayCall} (hcalls : ∀ call ∈ calls, call.Keeps rid) :
    TypedOnce setting rid T s calls ↔
      Along (RelayCall.step setting) (Ready setting rid) s calls := by
  have hsilent : Along (RelayCall.step setting) (Silent setting rid) s calls ↔
      Along (RelayCall.step setting) (Ready setting rid) s calls :=
    Along.congr (fun _ => True) (fun _ _ _ => trivial)
      (fun s call _ => silent_iff_ready hclock s call)
      trivial calls
  refine ⟨fun h => hsilent.1 h.silent, fun hready => ?_⟩
  have hstart : Progress setting rid T s := by
    refine ⟨hrecord, ?_, .inl hfresh⟩
    rw [hfresh]
    simp
  have hend := Along.invariant (Progress setting rid T)
    (fun s call h hside => h.step hclock hside.1 hside.2) hstart (hready.and_forall hcalls)
  refine ⟨?_, hend.inTime, hsilent.2 hready⟩
  rcases hend.once with hnil | ⟨hlen, _⟩
  · rw [hnil]
    exact Nat.zero_le 1
  · exact hlen.le

/-- The answer to a created request is typed at most once, in time and silently on failure
exactly in the runs where every injection that has a value to type finds the browser and
the store ready for it. -/
theorem typed_once_iff (setting : Setting) (hclock : Monotone setting.clock) (rid : String)
    (args : RequestStore.CreateArgs) (w : World) (request : ControlRequest)
    (hcreate : ((RequestStore.create rid args).run (Requests.exec setting.clock) w).1 = .ok request)
    (client : Client) (hfresh : fillsOf rid client = []) (calls : List RelayCall)
    (hcalls : ∀ call ∈ calls, call.Keeps rid) :
    TypedOnce setting rid request.expiresAt
        (((RequestStore.create rid args).run (Requests.exec setting.clock) w).2, client) calls ↔
      Along (RelayCall.step setting) (Ready setting rid)
        (((RequestStore.create rid args).run (Requests.exec setting.clock) w).2, client) calls := by
  refine typedOnce_iff hclock ?_ hfresh hcalls
  obtain ⟨hlookup, requestType, expiresAt, createdAt, updatedAt, _, hnew⟩ :=
    create_ok hcreate
  intro r hr
  rw [hlookup] at hr
  cases hr
  exact ⟨by rw [hnew]; rfl, rfl⟩

instance (setting : Setting) (rid : String) (selector : Option String) (s : State)
    (request : ControlRequest) (value : Json) :
    Decidable (CanInject setting rid selector s request value) :=
  inferInstanceAs (Decidable (_ ∧ (_ → _) ∧ _ ≤ _))

instance (setting : Setting) (rid : String) (s : State) :
    ∀ call, Decidable (Ready setting rid s call)
  | .injectResponseIfApplicable id selector =>
    inferInstanceAs (Decidable (id = rid → ∀ request ∈ s.1.requests.lookup rid,
      ∀ value ∈ answer setting rid request s.2, CanInject setting rid selector s request value))
  | .receiveUserResponse _ | .markCompletedByUser _ | .store _ => .isTrue trivial

/-- Every envelope carries the same code, and the browser takes every text. -/
def codeSetting : Setting where
  py := .ascii
  channel :=
    { sha256 := id
      openWeb := fun _ _ => .ok (.obj [("code", .str "123456")])
      openRaw := fun _ _ => .ok (.obj [("code", .str "123456")]) }
  browser :=
    { currentUrl := "https://shop.example/pay"
      inspectForms := []
      fillField := fun _ _ _ => .ok () }
  clock := fun n => n

def codeRequest (ttl : ℤ) : RequestStore.CreateArgs where
  requestType := "sms_code"
  origin := "https://shop.example"
  topLevelUrl := "https://shop.example/pay"
  actionSummary := "Enter the code"
  ttlSeconds := ttl
  challengeType := some "sms"

def codeEnvelope : Dict :=
  [("request_id", .str "req_1"), ("origin", .str "https://shop.example"),
    ("request_type", .str "sms_code"), ("nonce", .str "n"), ("ciphertext", .str "c")]

/-- The request has been created, and the relay has just been started. -/
def codeState (ttl : ℤ) : State :=
  (((RequestStore.create "req_1" (codeRequest ttl)).run (Requests.exec codeSetting.clock)
    .empty).2, ⟨[], none, []⟩)

def codeTyped : List RelayCall :=
  [.store (.submitCiphertext "req_1" codeEnvelope), .injectResponseIfApplicable "req_1" none]

theorem typed_once_iff_submitted :
    ∃ T, TypedOnce codeSetting "req_1" T (codeState 300) codeTyped := by
  obtain ⟨request, hrequest⟩ := Except.exists_eq_ok
    (x := ((create "req_1" (codeRequest 300)).run (Requests.exec codeSetting.clock)
      .empty).1) (by decide +kernel)
  have hcalls : ∀ call ∈ codeTyped, call.Keeps "req_1" := by
    intro call hcall
    simp only [codeTyped, List.mem_cons, List.not_mem_nil, or_false] at hcall
    rcases hcall with rfl | rfl
    · intro hcreate
      cases hcreate
    · trivial
  exact ⟨request.expiresAt, (typed_once_iff codeSetting Nat.mono_cast "req_1" (codeRequest 300)
    .empty request hrequest ⟨[], none, []⟩ rfl codeTyped hcalls).2 (by decide +kernel)⟩

/-- The code is received in time, and the request then found to be expired. -/
def codeLate : List RelayCall :=
  [.store (.submitCiphertext "req_1" codeEnvelope), .receiveUserResponse "req_1",
    .store (.get "req_1")]

def injectionAfter (ttl : ℤ) (calls : List RelayCall) : Except Error Unit × List Fill :=
  let (result, s) := (injectResponseIfApplicable .ascii "req_1" none).run (exec codeSetting)
    (calls.foldl (RelayCall.step codeSetting) (codeState ttl))
  (result.map fun _ => (), s.2.fills)

/-- A second injection types the code once more and then raises. An injection into an
expired request types a code that was received before, and raises as well. -/
theorem typed_again :
    (∀ T, ¬ TypedOnce codeSetting "req_1" T (codeState 300)
        (codeTyped ++ [.injectResponseIfApplicable "req_1" none])) ∧
      (injectionAfter 300 codeTyped).1 = .error ⟨.valueError, "request already used"⟩ ∧
      (injectionAfter 300 codeTyped).2.map Fill.value = ["123456", "123456"] ∧
      ((codeLate.foldl (RelayCall.step codeSetting) (codeState 6)).1.requests.lookup
        "req_1").map ControlRequest.status = some .expired ∧
      (injectionAfter 6 codeLate).1 = .error ⟨.valueError, "request expired"⟩ ∧
      (injectionAfter 6 codeLate).2.map Fill.value = ["123456"] := by
  refine ⟨fun T h => absurd h.once (by decide +kernel), ?_⟩
  decide +kernel

end OmniDoer.ChallengeRelay
