import OmniDoer.Verification.Broker.Semantics
import OmniDoer.Verification.Policy.Origins

/-! # The form that receives a password

The policy is asked about the action of the first form of the page, and the password goes
to the first element that matches the selector, which may belong to another form. -/

namespace OmniDoer.Broker

open Py Effects Requests Browser Policy SecretBroker

variable {py : Interpreter} {channel : SecureChannel.Channel} {clock : ℕ → ℚ} {page : Page}
  {engine : Engine} {rid usernameSelector passwordSelector : String}

def onPage (py : Interpreter) (channel : SecureChannel.Channel) (clock : ℕ → ℚ) (page : Page)
    (engine : Engine) : Setting :=
  ⟨py, channel, page.controller engine, clock⟩

/-- The policy allows the origin on the page, judged by the first form. -/
def Allowed (py : Interpreter) (page : Page) (origin : String) : Prop :=
  ∃ d, evaluateCredentialFill py page.url [origin] true (page.forms.head?.map Form.action) true =
    .ok d ∧ d.decision = .allow

/-- What a fill needs: a payload that is kept or can be received, the policy, and two
elements that take the texts. -/
def Fillable (py : Interpreter) (channel : SecureChannel.Channel) (clock : ℕ → ℚ) (page : Page)
    (engine : Engine) (rid usernameSelector passwordSelector : String) (s : State)
    (request : ControlRequest) : Prop :=
  ∃ payload username password,
    availablePayload (onPage py channel clock page engine) receiver rid request s.2 = some payload ∧
    payloadText py payload "username" = .ok username ∧
    payloadText py payload "password" = .ok password ∧
    Allowed py page request.origin ∧
    page.fill engine usernameSelector username = .ok () ∧
    page.fill engine passwordSelector password = .ok ()

theorem validateFill_ok_iff {url : String} {allowedOrigins : List String}
    {formActionUrl : Option String} :
    (∃ d, validateFill py url allowedOrigins formActionUrl = .ok d) ↔
      ∃ d, evaluateCredentialFill py url allowedOrigins true formActionUrl true = .ok d ∧
        d.decision = .allow := by
  constructor
  · rintro ⟨d, h⟩
    obtain ⟨d', hd', h⟩ := Except.bind_eq_ok.1 h
    split at h
    · rename_i hallow
      exact ⟨d', hd', hallow⟩
    · cases h
  · rintro ⟨d, h, hd⟩
    exact ⟨d, Except.bind_eq_ok.2 ⟨d, h, by rw [if_pos hd]; rfl⟩⟩

theorem fillAfterReceive_onPage_iff {s : State} {request : ControlRequest}
    (hstored : s.1.requests.lookup rid = some request) :
    (fillAfterReceive py rid usernameSelector passwordSelector).Succeeds
        (exec (onPage py channel clock page engine)) s ↔
      Fillable py channel clock page engine rid usernameSelector passwordSelector s request := by
  obtain ⟨s₁, hget, hreads, hclient⟩ :=
    afterReads_get (onPage py channel clock page engine) hstored
  have horigin : (expireIfNeeded clock request s.1.tick).1.origin = request.origin := by
    obtain ⟨status, t, hcopy⟩ := expireIfNeeded_eq clock request s.1.tick
    rw [hcopy]
  have hpayload (payload : Json) :
      ((payloadFor receiver rid).run (exec (onPage py channel clock page engine)) s₁).1 =
          .ok payload ↔
        availablePayload (onPage py channel clock page engine) receiver rid request s.2 =
          some payload := by
    rw [payloadFor_ok_iff receiver (onPage py channel clock page engine) hreads.lookup, hclient]
    rw [← availablePayload_expireIfNeeded receiver _ rid request s.1.tick]
    rfl
  simp only [fillAfterReceive, Prog.succeeds_bind_iff, hget, currentUrl_run, inspectFormAction_run,
    Prog.run_ofExcept, fillField_run, Except.ok.injEq, exists_eq_left', auditAppend_run,
    Prog.succeeds_pure, and_true, exists_const, hpayload]
  rw [show (onPage py channel clock page engine).clock = clock from rfl, horigin]
  constructor
  · rintro ⟨payload, hp, d, hd, username, husername, _, hfill, password, hpassword, _, hfill'⟩
    exact ⟨payload, username, password, hp, husername, hpassword,
      validateFill_ok_iff.1 ⟨d, hd⟩, hfill, hfill'⟩
  · rintro ⟨payload, username, password, hp, husername, hpassword, hallowed, hfill, hfill'⟩
    obtain ⟨d, hd⟩ := validateFill_ok_iff.2 hallowed
    exact ⟨payload, hp, d, hd, username, husername, (), hfill, password, hpassword, (), hfill'⟩

/-- The element that receives the password belongs to no form or to one whose action has
the origin of the page, and that is the origin of the request. -/
def SameOriginFill (py : Interpreter) (page : Page) (engine : Engine) (passwordSelector : String)
    (request : ControlRequest) : Prop :=
  originFromUrl py page.url = .ok (some request.origin) ∧
    ∃ element form, page.target engine passwordSelector = some (element, form) ∧
      ∀ i ∈ form, originFromUrl py (page.forms.get i).action = originFromUrl py page.url

/-- The form of the element that receives the password is the first of the page, with an
action that has an origin, or has the origin of the page anyway. -/
def FormCovered (py : Interpreter) (page : Page) (engine : Engine) (passwordSelector : String) :
    Prop :=
  ∀ target ∈ page.target engine passwordSelector, ∀ i ∈ target.2,
    (i.val = 0 ∧ ∃ origin, originFromUrl py (page.forms.get i).action = .ok (some origin)) ∨
      originFromUrl py (page.forms.get i).action = originFromUrl py page.url

theorem Allowed.page_origin {origin : String} (h : Allowed py page origin) :
    originFromUrl py page.url = .ok (some origin) := by
  obtain ⟨d, hd, hallow⟩ := h
  obtain ⟨o, hurl, hmem, _, _⟩ := evaluateCredentialFill_allow hd hallow
  obtain rfl := List.mem_singleton.1 hmem
  exact hurl

theorem Allowed.first_form {origin formOrigin : String} (h : Allowed py page origin)
    {i : Fin page.forms.length} (hi : i.val = 0)
    (hform : originFromUrl py (page.forms.get i).action = .ok (some formOrigin)) :
    formOrigin = origin := by
  obtain ⟨d, hd, hallow⟩ := h
  obtain ⟨_, _, hmem, _, hmismatch⟩ := evaluateCredentialFill_allow hd hallow
  obtain rfl := List.mem_singleton.1 hmem
  have hfirst : page.forms.head? = some (page.forms.get i) := by
    rw [List.head?_eq_getElem?, ← hi]
    exact List.getElem?_eq_getElem i.isLt
  rw [hfirst] at hmismatch
  change formActionMismatch py _ (some (page.forms.get i).action) = _ at hmismatch
  generalize (page.forms.get i).action = action at hform hmismatch
  have hne : action ≠ "" := by
    rintro rfl
    cases hform
  simpa [formActionMismatch, hne, hform] using hmismatch

theorem target_of_fill {selector value : String} (h : page.fill engine selector value = .ok ()) :
    ∃ element form, page.target engine selector = some (element, form) := by
  unfold Page.fill at h
  split at h
  · rename_i element form htarget
    exact ⟨element, form, htarget⟩
  · cases h

/-- A fill that returns has put the password into no form or a form of the same origin, on
a page of the origin of the request, exactly when the form of its target is one that the
policy has looked at or has the origin of the page. -/
theorem fill_same_origin_iff (py : Interpreter) (channel : SecureChannel.Channel) (clock : ℕ → ℚ)
    (page : Page) (engine : Engine) (rid usernameSelector passwordSelector : String) (s : State)
    (request : ControlRequest) (hstored : s.1.requests.lookup rid = some request) :
    ((fillAfterReceive py rid usernameSelector passwordSelector).Succeeds
        (exec (onPage py channel clock page engine)) s →
      SameOriginFill py page engine passwordSelector request) ↔
      (Fillable py channel clock page engine rid usernameSelector passwordSelector s request →
        FormCovered py page engine passwordSelector) := by
  rw [fillAfterReceive_onPage_iff hstored]
  refine forall_congr' fun h => ?_
  obtain ⟨_, _, password, _, _, _, hallowed, _, hfill⟩ := h
  obtain ⟨element, form, htarget⟩ := target_of_fill hfill
  constructor
  · rintro ⟨_, element', form', htarget', hforms⟩ target ht i hi
    obtain rfl := Option.some.inj (htarget'.symm.trans ht)
    exact .inr (hforms i hi)
  · intro hcovered
    refine ⟨hallowed.page_origin, element, form, htarget, fun i hi => ?_⟩
    rcases hcovered (element, form) htarget i hi with ⟨hfirst, formOrigin, hform⟩ | hsame
    · rw [hform, hallowed.page_origin, hallowed.first_form hfirst hform]
    · exact hsame

def loginChannel : SecureChannel.Channel where
  sha256 := id
  openWeb := fun _ _ => .ok (.obj [("username", .str "ann"), ("password", .str "s3cret")])
  openRaw := fun _ _ => .ok (.obj [("username", .str "ann"), ("password", .str "s3cret")])

/-- The default selectors, on the elements of the page below. -/
def loginEngine : Engine where
  matchesSelector := fun selector e =>
    if selector = defaultPasswordSelector then e.tag = "input" && e.type = "password"
    else selector = defaultUsernameSelector && e.tag = "input" && e.autocomplete = "username"
  accepts := fun _ _ => .ok ()

/-- The login form comes second and posts to `action`. -/
def loginPage (action : String) : Page where
  url := "https://shop.example/login"
  forms := [⟨"https://shop.example/search"⟩, ⟨action⟩]
  elements :=
    [({ tag := "input", name := "q" }, some 0),
      ({ tag := "input", type := "text", autocomplete := "username" }, some 1),
      ({ tag := "input", type := "password" }, some 1)]

/-- A credential request of the shop to which the user has answered. -/
def loginState : State :=
  ((do
      let _ ← RequestStore.create "req_1"
        { requestType := "credential", origin := "https://shop.example"
          topLevelUrl := "https://shop.example/login", actionSummary := "Log in" }
      RequestStore.submitCiphertext "req_1"
        [("request_id", .str "req_1"), ("origin", .str "https://shop.example"),
          ("request_type", .str "credential")] : StoreProg ControlRequest).run
    (Requests.exec fun n => n) .empty |>.2, ⟨[], none, []⟩)

theorem loginState_stored : ∃ request, loginState.1.requests.lookup "req_1" = some request := by
  exact Option.isSome_iff_exists.1 (by decide +kernel)

theorem login_target (action : String) :
    (loginPage action).target loginEngine defaultPasswordSelector =
      some ({ tag := "input", type := "password" }, some ⟨1, Nat.one_lt_two⟩) := by
  rfl

theorem fill_same_origin_iff_login :
    (fillAfterReceive .ascii "req_1").Succeeds
        (exec (onPage .ascii loginChannel (fun n => n) (loginPage "https://shop.example/session")
          loginEngine)) loginState ∧
      ∃ request, loginState.1.requests.lookup "req_1" = some request ∧
        SameOriginFill .ascii (loginPage "https://shop.example/session") loginEngine
          defaultPasswordSelector request := by
  have hsucceeds : (fillAfterReceive .ascii "req_1").Succeeds
      (exec (onPage .ascii loginChannel (fun n => n) (loginPage "https://shop.example/session")
        loginEngine)) loginState := Except.exists_eq_ok (by decide +kernel)
  obtain ⟨request, hrequest⟩ := loginState_stored
  refine ⟨hsucceeds, request, hrequest, ?_⟩
  refine (fill_same_origin_iff _ _ _ _ _ _ _ _ _ _ hrequest).2 (fun _ => ?_) hsucceeds
  intro target htarget i hi
  obtain rfl := Option.some.inj ((login_target _).symm.trans htarget)
  cases hi
  exact .inr (by decide +kernel)

/-- The first form is a search form of the shop, the login form posts to another host, and
the password is put into it. -/
theorem password_in_foreign_form :
    (fillAfterReceive .ascii "req_1").Succeeds
        (exec (onPage .ascii loginChannel (fun n => n) (loginPage "https://evil.example/collect")
          loginEngine)) loginState ∧
      originFromUrl .ascii "https://evil.example/collect" = .ok (some "https://evil.example") ∧
      originFromUrl .ascii "https://shop.example/login" = .ok (some "https://shop.example") ∧
      ∀ request, ¬ SameOriginFill .ascii (loginPage "https://evil.example/collect") loginEngine
        defaultPasswordSelector request := by
  refine ⟨Except.exists_eq_ok (by decide +kernel), by decide +kernel, by decide +kernel, ?_⟩
  rintro request ⟨_, element, form, htarget, hforms⟩
  obtain ⟨rfl, rfl⟩ := Prod.mk.inj (Option.some.inj ((login_target _).symm.trans htarget))
  exact absurd (hforms _ rfl) (by decide +kernel)

end OmniDoer.Broker
