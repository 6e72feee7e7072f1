import OmniDoer.Model.Takeover
import OmniDoer.Library.Lock
import OmniDoer.Verification.Requests.Semantics

/-! # Takeover input and the recorded frame

The server checks an input event against the frame that is recorded for the request, and
the relay applies it later, when it only asks for the status of the request. The events
that are applied are current when no frame is recorded while an event for the request
waits in the queue, and when the clock does not run past the age limit of the frame in the
meantime. -/

namespace OmniDoer.Takeover

open Py Effects Requests Tables List Function RequestStore Table

/-- The request with the same frame, and not under user control unless it was. -/
structure Derived (r' r : ControlRequest) : Prop where
  requestId : r'.requestId = r.requestId
  frameId : r'.takeoverFrameId = r.takeoverFrameId
  capturedAt : r'.takeoverFrameCapturedAt = r.takeoverFrameCapturedAt
  browserContextId : r'.browserContextId = r.browserContextId
  userControl : r'.status = .userControl → r.status = .userControl

theorem Derived.refl (r : ControlRequest) : Derived r r := ⟨rfl, rfl, rfl, rfl, id⟩

theorem Derived.trans {r r' r'' : ControlRequest} (h : Derived r'' r') (h' : Derived r' r) :
    Derived r'' r where
  requestId := h.requestId.trans h'.requestId
  frameId := h.frameId.trans h'.frameId
  capturedAt := h.capturedAt.trans h'.capturedAt
  browserContextId := h.browserContextId.trans h'.browserContextId
  userControl := h'.userControl ∘ h.userControl

theorem derived_expireIfNeeded (clock : ℕ → ℚ) (r : ControlRequest) (tick : ℕ) :
    Derived (expireIfNeeded clock r tick).1 r := by
  unfold expireIfNeeded
  split
  · split
    · exact ⟨rfl, rfl, rfl, rfl, fun h => by cases h⟩
    · exact .refl r
  · exact .refl r

def Holds (P : ControlRequest → Prop) (w : World) : Prop :=
  ∀ id r, w.requests.lookup id = some r → P r

variable {P : ControlRequest → Prop} {clock : ℕ → ℚ}

variable {w : World} {r : ControlRequest}

theorem Holds.insert (h : Holds P w) (hr : P r) (n : ℕ) :
    Holds P { w with requests := w.requests.insert r, tick := n } := by
  intro id r' hr'
  rw [lookup_insert] at hr'
  split at hr'
  · cases hr'
    exact hr
  · exact h id r' hr'

section

variable (hP : ∀ r r', Derived r' r → P r → P r') {id : String} {new : ControlRequest → Prop}
  (hnew : ∀ r, new r → P r) {frames : Prop} (hframes : frames →
    ∀ r : ControlRequest, r.requestId = id → P r)
include hP hnew hframes

theorem exec_holds {m : Memory} (o : StoreOp) (h : Holds P w) (hread : ∀ r ∈ m.read, P r)
    (hguar : (lifecycle id new frames).guar m o) :
    Holds P (Requests.exec clock o w).2 ∧
      ∀ r ∈ (m.next o (Requests.exec clock o w).1).read, P r := by
  cases o with
  | time | auditAppend => exact ⟨h, hread⟩
  | getLocked id =>
    simp only [Requests.exec]
    split
    · exact ⟨h, hread⟩
    · rename_i r hr
      have hstored := hP r _ (derived_expireIfNeeded clock r w.tick) (h id r hr)
      refine ⟨h.insert hstored _, ?_⟩
      rintro r' ⟨rfl⟩
      exact hstored
  | updateLocked r =>
    obtain ⟨r₀, t, hr₀, hid, -, rfl, hrecords⟩ := hguar
    have hwritten : P (t.apply r₀) := by
      cases ht : t.recordsFrame with
      | true => exact hframes (hrecords ht) _ (by simpa using hid)
      | false =>
        refine hP r₀ _ ?_ (hread r₀ hr₀)
        cases t with
        | recordFrame => cases ht
        | _ => exact ⟨rfl, rfl, rfl, rfl, fun h => by cases h⟩
    exact ⟨h.insert (hP (t.apply r₀) (.touch _ (clock w.tick))
      ⟨rfl, rfl, rfl, rfl, fun h => h⟩ hwritten) _, hread⟩
  | listLocked =>
    refine ⟨fun id r' hr' => ?_, hread⟩
    obtain ⟨u, -, he, -⟩ := w.requests.lookup_mapAccum (R := fun _ _ => True)
      (expireIfNeeded clock) (expireIfNeeded_requestId clock) (fun _ => trivial)
      (fun _ _ _ _ => trivial) w.tick id
    rw [show (Requests.exec clock .listLocked w).2.requests.lookup id = _ from he] at hr'
    obtain ⟨r, hr, rfl⟩ := Option.map_eq_some_iff.1 hr'
    exact hP r _ (derived_expireIfNeeded clock r u) (h id r hr)
  | createLocked r => exact ⟨h.insert (hnew r hguar.2) _, hread⟩

theorem run_holds {α : Type} {post : Memory → α → Prop} {p : StoreProg α}
    (hp : p.Returns (lifecycle id new frames) post Memory.empty) (h : Holds P w) :
    Holds P (p.run (Requests.exec clock) w).2 := by
  obtain ⟨-, ⟨hholds, -⟩, -⟩ := Prog.Meets.run (fun m w => Holds P w ∧ ∀ r ∈ m.read, P r)
    (fun m w o hi hguar => ⟨exec_rely id new o w, exec_holds hP hnew hframes o hi.1 hi.2 hguar⟩) hp
    ⟨h, fun _ hr => nomatch hr⟩
  exact hholds

end

/-- Time has passed, and no frame was recorded. -/
structure Onward (w w' : World) : Prop where
  tick : w.tick ≤ w'.tick
  derived : ∀ id r', w'.requests.lookup id = some r' →
    ∃ r, w.requests.lookup id = some r ∧ Derived r' r

theorem Onward.refl (w : World) : Onward w w := ⟨le_rfl, fun _ r h => ⟨r, h, .refl r⟩⟩

theorem Onward.trans {w w' w'' : World} (h : Onward w w') (h' : Onward w' w'') : Onward w w'' := by
  refine ⟨h.tick.trans h'.tick, fun id r'' hr'' => ?_⟩
  obtain ⟨r', hr', hderived'⟩ := h'.derived id r'' hr''
  obtain ⟨r, hr, hderived⟩ := h.derived id r' hr'
  exact ⟨r, hr, hderived'.trans hderived⟩

theorem run_tick {α : Type} (p : StoreProg α) (w : World) :
    w.tick ≤ (p.run (Requests.exec clock) w).2.tick := by
  induction p generalizing w with
  | pure | raise => exact le_rfl
  | op o k ih => exact (exec_tick o w).trans (ih _ _)

/-- A program that records no frame and creates nothing. -/
theorem run_onward {α : Type} {id : String} {p : StoreProg α}
    (hp : p.Returns (lifecycle id (fun _ => False) False) (fun _ _ => True) Memory.empty)
    (w : World) :
    Onward w (p.run (Requests.exec clock) w).2 := by
  let P : ControlRequest → Prop := fun r' =>
    ∃ r, w.requests.lookup r'.requestId = some r ∧ Derived r' r
  have hP : ∀ r r', Derived r' r → P r → P r' := by
    rintro r r' h ⟨r₀, hr₀, h₀⟩
    exact ⟨r₀, h.requestId ▸ hr₀, h.trans h₀⟩
  have hstart : Holds P w := fun id r hr =>
    ⟨r, (show r.requestId = id from key_of_lookup hr) ▸ hr, .refl r⟩
  refine ⟨run_tick p w, fun id r' hr' => ?_⟩
  obtain ⟨r, hr, hderived⟩ := run_holds hP (fun _ h => h.elim) (fun h => h.elim) hp hstart id r' hr'
  exact ⟨r, (show r'.requestId = id from key_of_lookup hr') ▸ hr, hderived⟩

variable {id : String}

theorem get_yields :
    (RequestStore.get id).Yields (Requests.exec clock)
      (fun r w' => w'.requests.lookup id = some r) w := by
  intro r h
  obtain ⟨r₀, hr₀, rfl⟩ := get_ok h
  have hid : (expireIfNeeded clock r₀ w.tick).1.requestId = id := by
    rw [expireIfNeeded_requestId]
    exact key_of_lookup hr₀
  rw [get_run_of_lookup hr₀, ← hid]
  exact lookup_insert_self _ _

theorem getTakeover_yields :
    (getTakeover id).Yields (Requests.exec clock)
      (fun r w' => w'.requests.lookup id = some r) w := by
  refine get_yields.bind fun r w' hstored => ?_
  split
  · have hsame : (ensureActionable r false).Yields (Requests.exec clock)
        (fun _ w'' => w''.requests = w'.requests) w' := by
      intro u h
      obtain ⟨hexpired, hactionable⟩ := ensureActionable_ok_iff.1 h
      rw [ensureActionable_run_ok hexpired hactionable]
    exact hsame.bind fun _ w'' hrequests => .pure (hrequests ▸ hstored)
  · exact .raise

/-- The event carries the frame that is recorded for the request, if there is one. -/
def Bound (event : InputEvent) (r : ControlRequest) : Prop :=
  ∀ frameId, r.takeoverFrameId = some frameId → frameId ≠ "" → event.frameId = some frameId

/-- The age check of `validate_takeover_frame`. -/
def tooOld (r : ControlRequest) (now : ℚ) : Bool :=
  RequestStore.takeoverFrameMaxAgeSeconds.lt
    ((Double.fin now).sub (r.takeoverFrameCapturedAt.getD (.fin 0)))

/-- A frame is recorded, and it is too old. -/
def staleFrame (r : ControlRequest) (now : ℚ) : Bool :=
  r.takeoverFrameId.any (· ≠ "") && tooOld r now

/-- The event was applied while the user was in control, with the frame recorded then, if
any, at most thirty seconds after its capture. -/
def Applied.Fresh (a : Applied) : Prop :=
  ∃ r, a.request = some r ∧ r.status = .userControl ∧
    ∀ frameId, r.takeoverFrameId = some frameId → frameId ≠ "" →
      a.event.frameId = some frameId ∧ tooOld r a.time = false

variable {event : InputEvent}

theorem Bound.derived {r r' : ControlRequest} (h : Bound event r)
    (hderived : Derived r' r) : Bound event r' := fun frameId hframe =>
  h frameId (hderived.frameId ▸ hframe)

theorem staleFrame_derived {r r' : ControlRequest} (h : Derived r' r) (now : ℚ) :
    staleFrame r' now = staleFrame r now := by
  simp only [staleFrame, tooOld, h.frameId, h.capturedAt]

/-- An event whose frame passes is bound to the stored request. -/
theorem validateTakeoverFrame_yields :
    (validateTakeoverFrame id event.frameId none).Yields (Requests.exec clock)
      (fun r w' => w'.requests.lookup id = some r ∧ Bound event r) w := by
  refine getTakeover_yields.bind fun r w' hstored => ?_
  cases hframe : r.takeoverFrameId with
  | none =>
    refine .pure ⟨hstored, fun frameId hsome => ?_⟩
    rw [hframe] at hsome
    cases hsome
  | some current =>
    dsimp only
    split
    · rename_i hempty
      refine .pure ⟨hstored, fun frameId hsome hne => ?_⟩
      rw [hframe] at hsome
      cases hsome
      exact absurd hempty hne
    · split
      · exact .raise
      · rename_i hsame
        have htime : (nowOrTime none).Yields (Requests.exec clock)
            (fun _ w'' => w''.requests = w'.requests) w' := fun _ _ => rfl
        refine htime.bind fun now w'' hrequests => ?_
        split
        · exact .raise
        · refine .pure ⟨hrequests ▸ hstored, fun frameId hsome _ => ?_⟩
          rw [hframe] at hsome
          cases hsome
          exact not_not.1 hsame

theorem validateTakeoverInput_yields :
    (validateTakeoverInput id event).Yields (Requests.exec clock)
      (fun r w' => w'.requests.lookup id = some r ∧ Bound event r) w := by
  refine validateTakeoverFrame_yields.bind fun r w' hbound => ?_
  cases checkBounds event r with
  | error e => exact .raise
  | ok u => exact .pure hbound

variable {setting : Setting} {s s' : System} {id : String} {event : InputEvent}

theorem store_run {α : Type} (p : StoreProg α) (s : System) :
    (RelayProg.store p).run (exec setting) s =
      ((p.run (Requests.exec setting.clock) s.1).1,
        (p.run (Requests.exec setting.clock) s.1).2, s.2) :=
  Prog.run_inl p s

/-- A program of the store that records no frame and creates nothing, run by the relay. -/
theorem store_ends {α : Type} {p : StoreProg α} {post : α → World → Prop}
    (hp : p.Returns (lifecycle id (fun _ => False) False) (fun _ _ => True) Memory.empty)
    (hpost : p.Yields (Requests.exec setting.clock) post s.1) :
    (RelayProg.store p).Ends (exec setting) (fun r s' =>
      Onward s.1 s'.1 ∧ s'.2 = s.2 ∧ ∀ a, r = .ok a → post a s'.1) s := by
  rw [Prog.Ends, store_run]
  exact ⟨run_onward hp s.1, rfl, hpost⟩

/-- The browser is handed an event while the store is as `w`. -/
def Relay.afterApply (setting : Setting) (w : World) (id : String) (event : InputEvent)
    (relay : Relay) : Relay :=
  { relay with
    applied := relay.applied ++ [⟨id, event, w.requests.lookup id, setting.clock w.tick⟩] }

theorem applyUserInputEvent_run (id : String) (event : InputEvent) (s : System) :
    (RelayProg.applyUserInputEvent id event).run (exec setting) s =
      (setting.browser s.2.applied.length event, s.1, s.2.afterApply setting s.1 id event) :=
  Prog.run_ofExcept ..

/-- What `apply_input_event` does: it applies the event, if the user is in control. -/
structure Applies (setting : Setting) (id : String) (event : InputEvent)
    (s s' : System) : Prop where
  onward : Onward s.1 s'.1
  dirs : s'.2.dirs = s.2.dirs
  applied : s'.2.applied = s.2.applied ∨
    ∃ r r₀ n, s.1.requests.lookup id = some r₀ ∧ Derived r r₀ ∧ r.status = .userControl ∧
      s.1.tick ≤ n ∧ n ≤ s'.1.tick ∧
      s'.2.applied = s.2.applied ++ [⟨id, event, some r, setting.clock n⟩]

variable (setting) in
theorem applyInputEvent_applies (id : String) (event : InputEvent) (s : System) :
    Applies setting id event s ((applyInputEvent id event).run (exec setting) s).2 := by
  change (applyInputEvent id event).Ends (exec setting)
    (fun _ s' => Applies setting id event s s') s
  refine (store_ends (get_returns.mono fun _ _ _ => trivial) get_yields).bind ?_ ?_
  · rintro r ⟨w, relay⟩ ⟨honward, rfl, hget⟩
    have hstored := hget r rfl
    obtain ⟨r₀, hr₀, hderived⟩ := honward.derived id r hstored
    split
    · exact ⟨honward, rfl, .inl rfl⟩
    · rename_i hstatus
      cases hvalid : validateInputEvent event with
      | error e => exact ⟨honward, rfl, .inl rfl⟩
      | ok u =>
        have happlied : Applies setting id event s (w, s.2.afterApply setting w id event) := by
          refine ⟨honward, rfl, .inr ⟨r, r₀, w.tick, hr₀, hderived, not_not.1 hstatus,
            honward.tick, le_rfl, ?_⟩⟩
          rw [Relay.afterApply, hstored]
        have hbrowser : (RelayProg.applyUserInputEvent id event).Ends (exec setting)
            (fun _ s' => s' = (w, s.2.afterApply setting w id event)) (w, s.2) := by
          rw [Prog.Ends, applyUserInputEvent_run]
        refine hbrowser.bind ?_ ?_
        · rintro u s' rfl
          -- the audit entry touches neither the requests nor the clock
          exact ⟨⟨happlied.onward.tick, happlied.onward.derived⟩, happlied.dirs, happlied.applied⟩
        · rintro e s' rfl
          exact happlied
  · rintro e ⟨w, relay⟩ ⟨honward, rfl, -⟩
    exact ⟨honward, rfl, .inl rfl⟩

/-- An application is fresh, if the event was bound and the frame is not too old at any
reading of the clock in the meantime. -/
theorem Applies.fresh (h : Applies setting id event s s') (hfresh : ∀ a ∈ s.2.applied, a.Fresh)
    (hbound : ∀ r, s.1.requests.lookup id = some r → r.status = .userControl →
      Bound event r ∧ ∀ n, s.1.tick ≤ n → n ≤ s'.1.tick → staleFrame r (setting.clock n) = false) :
    ∀ a ∈ s'.2.applied, a.Fresh := by
  rcases h.applied with hsame | ⟨r, r₀, n, hr₀, hderived, hstatus, hfrom, hto, happlied⟩
  · rw [hsame]
    exact hfresh
  · rw [happlied]
    intro a ha
    rcases mem_append.1 ha with hold | hnew
    · exact hfresh a hold
    · rw [mem_singleton.1 hnew]
      obtain ⟨hevent, hage⟩ := hbound r₀ hr₀ (hderived.userControl hstatus)
      refine ⟨r, rfl, hstatus,
        fun frameId hframe hne => ⟨hevent.derived hderived frameId hframe hne, ?_⟩⟩
      have hstale : staleFrame r (setting.clock n) = false := by
        rw [staleFrame_derived hderived]
        exact hage n hfrom hto
      simpa [staleFrame, hframe, hne] using hstale

variable (setting) in
theorem consumeFiles_run (dir : String) (paths : List String) (s : System) :
    ∃ payloads relay, (consumeFiles dir paths).run (exec setting) s = (.ok payloads, s.1, relay) ∧
      relay.applied = s.2.applied ∧
      (∀ d, ∀ p ∈ (relay.dirs d).inputs.rows, p ∈ (s.2.dirs d).inputs.rows) ∧
      ∀ p ∈ payloads, p ∈ (s.2.dirs dir).inputs.rows := by
  induction paths generalizing s with
  | nil => exact ⟨[], s.2, rfl, rfl, fun _ _ h => h, fun _ h => (nomatch h)⟩
  | cons path rest ih =>
    let s₁ : System := (s.1, s.2.update dir fun d =>
      { d with inputs := d.inputs.filter fun input => input.eventId ≠ path })
    obtain ⟨payloads, relay, hrun, happlied, hdirs, hpayloads⟩ := ih s₁
    have hsubset : ∀ d, ∀ p ∈ (s₁.2.dirs d).inputs.rows, p ∈ (s.2.dirs d).inputs.rows := by
      intro d p hp
      by_cases hd : d = dir
      · subst hd
        simp only [s₁, Relay.update, update_self] at hp
        exact mem_of_mem_filter hp
      · simpa only [s₁, Relay.update, update_of_ne hd] using hp
    refine ⟨((s.2.dirs dir).inputs.lookup path).toList ++ payloads, relay, ?_, happlied,
      fun d p hp => hsubset d p (hdirs d p hp), fun p hp => ?_⟩
    · change ((consumeFiles dir rest >>= fun payloads => Prog.pure (_ ++ payloads)).run
        (exec setting) s₁) = _
      rw [Prog.run_bind_ok hrun]
      rfl
    · rcases mem_append.1 hp with hfound | hlater
      · exact (lookup_eq_some_iff.1 (Option.mem_toList.1 hfound)).1
      · exact hsubset dir p (hpayloads p hlater)

variable (setting) in
theorem relayInput_run (payload : QueuedInput) (s : System) :
    ∃ s', (relayInput setting.py payload).run (exec setting) s = (.ok (), s') ∧
      (s' = s ∨ ∃ event, eventFromDict setting.py payload.event = .ok event ∧
        Applies setting payload.requestId event s s') := by
  unfold relayInput
  rw [Prog.run_handle]
  cases hevent : eventFromDict setting.py payload.event with
  | error e => exact ⟨s, rfl, .inl rfl⟩
  | ok event =>
    have happlies : Applies setting payload.requestId event s
        ((Prog.ofExcept (.ok event) >>= applyInputEvent payload.requestId).run
          (exec setting) s).2 :=
      applyInputEvent_applies setting payload.requestId event s
    generalize (Prog.ofExcept (.ok event) >>= applyInputEvent payload.requestId).run
      (exec setting) s = result at happlies ⊢
    obtain ⟨outcome, s'⟩ := result
    refine ⟨s', ?_, .inr ⟨event, rfl, happlies⟩⟩
    cases outcome with
    | error | ok => rfl

theorem relayInputs_cons {payload : QueuedInput} {rest : List QueuedInput}
    (hrun : (relayInput setting.py payload).run (exec setting) s = (.ok (), s')) :
    (relayInputs setting.py (payload :: rest)).run (exec setting) s =
      (relayInputs setting.py rest).run (exec setting) s' := by
  change (relayInput setting.py payload >>= fun _ => relayInputs setting.py rest).run
    (exec setting) s = _
  rw [Prog.run_bind_ok hrun]

variable (setting) in
theorem relayInputs_onward (payloads : List QueuedInput) (s : System) :
    Onward s.1 ((relayInputs setting.py payloads).run (exec setting) s).2.1 ∧
      ((relayInputs setting.py payloads).run (exec setting) s).2.2.dirs = s.2.dirs := by
  induction payloads generalizing s with
  | nil => exact ⟨.refl _, rfl⟩
  | cons payload rest ih =>
    obtain ⟨s', hrun, hcases⟩ := relayInput_run setting payload s
    rw [relayInputs_cons hrun]
    obtain ⟨honward, hdirs⟩ := ih s'
    rcases hcases with rfl | ⟨event, -, happlies⟩
    · exact ⟨honward, hdirs⟩
    · exact ⟨happlies.onward.trans honward, hdirs.trans happlies.dirs⟩

/-- The queued event is bound to the request of `w`, and its frame is not too old at any
reading of the clock until `last`. -/
def Ready (setting : Setting) (w : World) (last : ℕ) (payload : QueuedInput) : Prop :=
  ∀ r, w.requests.lookup payload.requestId = some r → r.status = .userControl →
    (∀ event, eventFromDict setting.py payload.event = .ok event → Bound event r) ∧
      ∀ n, w.tick ≤ n → n ≤ last → staleFrame r (setting.clock n) = false

theorem Ready.onward {w w' : World} {last : ℕ} {payload : QueuedInput}
    (h : Ready setting w last payload) (honward : Onward w w') : Ready setting w' last payload := by
  intro r' hr' hstatus
  obtain ⟨r, hr, hderived⟩ := honward.derived _ r' hr'
  obtain ⟨hbound, hage⟩ := h r hr (hderived.userControl hstatus)
  refine ⟨fun event hevent => (hbound event hevent).derived hderived, fun n hfrom hto => ?_⟩
  rw [staleFrame_derived hderived]
  exact hage n (honward.tick.trans hfrom) hto

theorem relayInputs_fresh (payloads : List QueuedInput) {last : ℕ}
    (hlast : ((relayInputs setting.py payloads).run (exec setting) s).2.1.tick ≤ last)
    (hready : ∀ payload ∈ payloads, Ready setting s.1 last payload)
    (hfresh : ∀ a ∈ s.2.applied, a.Fresh) :
    ∀ a ∈ ((relayInputs setting.py payloads).run (exec setting) s).2.2.applied, a.Fresh := by
  induction payloads generalizing s with
  | nil => exact hfresh
  | cons payload rest ih =>
    obtain ⟨s', hrun, hcases⟩ := relayInput_run setting payload s
    rw [relayInputs_cons hrun] at hlast ⊢
    have htick : s'.1.tick ≤ last := (relayInputs_onward setting rest s').1.tick.trans hlast
    rcases hcases with rfl | ⟨event, hevent, happlies⟩
    · exact ih hlast (fun p hp => hready p (mem_cons_of_mem _ hp)) hfresh
    · refine ih hlast (fun p hp => (hready p (mem_cons_of_mem _ hp)).onward happlies.onward) ?_
      refine happlies.fresh hfresh fun r hr hstatus => ?_
      obtain ⟨hbound, hage⟩ := hready payload mem_cons_self r hr hstatus
      exact ⟨hbound event hevent, fun n hfrom hto => hage n hfrom (hto.trans htick)⟩

variable (setting) in
theorem tick_run (contextId : String) (s : System) :
    ∃ w relay payloads, Onward s.1 w ∧
      ((publishBrowserRelayTick setting.py contextId).run (exec setting) s).2 =
        ((relayInputs setting.py payloads).run (exec setting) (w, relay)).2 ∧
      relay.applied = s.2.applied ∧
      (∀ d, ∀ p ∈ (relay.dirs d).inputs.rows, p ∈ (s.2.dirs d).inputs.rows) ∧
      ∀ p ∈ payloads, p ∈ (s.2.dirs (safeId setting.py contextId)).inputs.rows := by
  let dir := safeId setting.py contextId
  let w₁ : World := { s.1 with tick := s.1.tick + 1 }
  let relay₁ :=
    s.2.update dir fun d => { d with status := some (contextId, setting.clock s.1.tick) }
  let w₂ := ((list false).run (Requests.exec setting.clock) w₁).2
  let paths := (relay₁.dirs dir).inputs.sorted.rows.map QueuedInput.eventId
  obtain ⟨payloads, relay, hrun, happlied, hdirs, hpayloads⟩ :=
    consumeFiles_run setting dir paths (w₂, relay₁)
  have honward : Onward s.1 w₁ := ⟨Nat.le_succ _, fun _ r hr => ⟨r, hr, .refl r⟩⟩
  have hinputs : ∀ d, (relay₁.dirs d).inputs = (s.2.dirs d).inputs := by
    intro d
    by_cases hd : d = dir
    · simp only [relay₁, Relay.update, hd, update_self]
    · simp only [relay₁, Relay.update, update_of_ne hd]
  have hlist : (list false).Returns (lifecycle "" (fun _ => False) False)
      (fun _ _ => True) .empty := list_returns false
  refine ⟨w₂, relay, payloads, honward.trans (run_onward hlist w₁), ?_, happlied, ?_, ?_⟩
  · change ((consumeFiles dir paths >>= relayInputs setting.py).run (exec setting)
      (w₂, relay₁)).2 = _
    rw [Prog.run_bind_ok hrun]
  · intro d p hp
    rw [← hinputs]
    exact hdirs d p hp
  · intro p hp
    rw [← hinputs]
    exact hpayloads p hp

theorem tick_inputs (contextId d : String) {p : QueuedInput}
    (hp : p ∈ ((((publishBrowserRelayTick setting.py contextId).run (exec setting) s).2.2.dirs
      d).inputs.rows)) : p ∈ (s.2.dirs d).inputs.rows := by
  obtain ⟨w, relay, payloads, -, hrun, -, hdirs, -⟩ := tick_run setting contextId s
  rw [hrun, (relayInputs_onward setting payloads (w, relay)).2] at hp
  exact hdirs d p hp

/-- What the input action does: nothing to the relay; or it queues an event that is bound to
the stored request; or it tries to apply one. -/
inductive Accepts (setting : Setting) (id : String) (body : Dict) (s s' : System) : Prop
  | none (honward : Onward s.1 s'.1) (hrelay : s'.2 = s.2)
  | queue (dir : String) (input : QueuedInput) (event : InputEvent) (r : ControlRequest)
      (honward : Onward s.1 s'.1) (hid : input.requestId = id) (hbody : input.event = body)
      (hevent : eventFromDict setting.py body = .ok event)
      (hstored : s'.1.requests.lookup id = some r) (hbound : Bound event r)
      (hrelay : s'.2 = s.2.update dir fun d => { d with inputs := d.inputs.insert input })
  | apply (w : World) (event : InputEvent) (r : ControlRequest) (honward : Onward s.1 w)
      (hevent : eventFromDict setting.py body = .ok event)
      (hstored : w.requests.lookup id = some r) (hbound : Bound event r)
      (hregistered : setting.registered r.browserContextId = true)
      (happlies : Applies setting id event (w, s.2) s')

theorem getRequestForSession_yields (h : Server.Handler) :
    (Server.getRequestForSession h id).Yields (Requests.exec clock)
      (fun r w' => w'.requests.lookup id = some r) w := by
  refine get_yields.bind fun r w' hstored => ?_
  split
  · exact .pure hstored
  · exact .raise

theorem validated_ends (id : String) (event : InputEvent) (s : System) :
    (validated id event).Ends (exec setting) (fun reply s' => Onward s.1 s'.1 ∧ s'.2 = s.2 ∧
      (reply = .ok none → ∃ r, s'.1.requests.lookup id = some r ∧ Bound event r)) s := by
  have hreturns : (validateTakeoverInput id event).Returns (lifecycle id (fun _ => False) False)
      (fun _ _ => True) Memory.empty :=
    .bind (validateTakeoverFrame_returns event.frameId none) fun _ r _ =>
      .bind (q := fun _ _ => True) (.ofExcept fun _ _ => trivial) fun _ _ _ => .pure trivial
  obtain ⟨honward, hrelay, hyields⟩ := store_ends (s := s) hreturns
    (validateTakeoverInput_yields (w := s.1) : Prog.Yields (Requests.exec setting.clock) _ _ _)
  unfold validated
  rw [Prog.Ends, Prog.run_handle, Prog.run_map]
  cases hresult : ((RelayProg.store (validateTakeoverInput id event)).run (exec setting) s).1 with
  | ok r => exact ⟨honward, hrelay, fun _ => ⟨r, hyields r hresult⟩⟩
  | error e =>
    dsimp only [Except.map]
    cases hreply : validationReply e with
    | none | some => exact ⟨honward, hrelay, fun h => by cases h⟩

theorem postInput_accepts (h : Server.Handler) (id eventId : String) (body : Dict) (s : System) :
    Accepts setting id body s ((postInput setting h id eventId body).run (exec setting) s).2 := by
  have hreturns : (Server.getRequestForSession h id).Returns (lifecycle id (fun _ => False) False)
      (fun _ _ => True) Memory.empty := by
    refine .bind get_returns fun _ r hr => ?_
    split
    · exact .pure trivial
    · exact .raise
  change (postInput setting h id eventId body).Ends (exec setting)
    (fun _ s' => Accepts setting id body s s') s
  refine (store_ends hreturns (getRequestForSession_yields h)).bind ?_ ?_
  · rintro request ⟨w, relay⟩ ⟨honward, rfl, hget⟩
    cases hevent : eventFromDict setting.py body with
    | error e => exact .none honward rfl
    | ok event =>
      refine (validated_ends id event (w, s.2)).bind ?_ ?_
      · rintro reply ⟨w₂, relay⟩ ⟨hvalidate, rfl, hvalid⟩
        have hafter : Onward s.1 w₂ := honward.trans hvalidate
        cases reply with
        | some reply => exact .none hafter rfl
        | none =>
          obtain ⟨r, hlookup, hbound⟩ := hvalid rfl
          obtain ⟨r₁, hr₁, hderived⟩ := hvalidate.derived id r hlookup
          obtain rfl : r₁ = request := Option.some.inj (hr₁.symm.trans (hget request rfl))
          dsimp only
          split
          · rename_i hregistered
            change Accepts setting id body s
              (((fun _ => InputReply.applied) <$> applyInputEvent id event).run (exec setting)
                (w₂, s.2)).2
            rw [Prog.run_map_snd]
            exact .apply w₂ event r hafter hevent hlookup hbound
              (hderived.browserContextId ▸ hregistered)
              (applyInputEvent_applies setting id event (w₂, s.2))
          · have hlater (n : ℕ) : Onward s.1 { w₂ with tick := w₂.tick + n } :=
              ⟨hafter.tick.trans (Nat.le_add_right _ _), hafter.derived⟩
            rw [Prog.Ends, Prog.run_bind_of_ok rfl]
            split
            · exact .queue _ ⟨eventId, id, body, _⟩ event r (hlater 2) rfl rfl hevent hlookup
                hbound rfl
            · exact .none (hlater 1) rfl
      · rintro e ⟨w₂, relay⟩ ⟨hvalidate, rfl, -⟩
        exact .none (honward.trans hvalidate) rfl
  · rintro e ⟨w, relay⟩ ⟨honward, rfl, -⟩
    exact .none honward rfl

def perform (setting : Setting) (s : System) (call : TakeoverCall) : System :=
  ((call.prog setting).run (exec setting) s).2

/-- No frame is recorded for a request for which an event waits. While an event may be
applied, directly or by a tick, the clock stays within thirty seconds of the capture of the
frame of its request, if one is recorded. -/
def Timely (setting : Setting) (s : System) : TakeoverCall → Prop
  | .store (.recordTakeoverFrame id _) =>
    ∀ dir, ∀ p ∈ (s.2.dirs dir).inputs.rows, p.requestId ≠ id
  | .store _ => True
  | .input h id eventId body =>
    ∀ r, s.1.requests.lookup id = some r → r.status = .userControl →
      setting.registered r.browserContextId = true →
      ∀ n, s.1.tick ≤ n → n ≤ (perform setting s (.input h id eventId body)).1.tick →
        staleFrame r (setting.clock n) = false
  | .tick contextId =>
    ∀ p ∈ (s.2.dirs (safeId setting.py contextId)).inputs.rows,
      ∀ r, s.1.requests.lookup p.requestId = some r → r.status = .userControl →
      ∀ n, s.1.tick ≤ n → n ≤ (perform setting s (.tick contextId)).1.tick →
        staleFrame r (setting.clock n) = false

/-- Everything that was applied was fresh, and what waits is bound to its request. -/
structure Sound (setting : Setting) (s : System) : Prop where
  fresh : ∀ a ∈ s.2.applied, a.Fresh
  queued : ∀ dir, ∀ p ∈ (s.2.dirs dir).inputs.rows, ∀ event,
    eventFromDict setting.py p.event = .ok event →
    ∀ r, s.1.requests.lookup p.requestId = some r → Bound event r

section

variable (h : Sound setting s)
include h

theorem Sound.queued_onward (honward : Onward s.1 w) {dir : String}
    {p : QueuedInput} (hp : p ∈ (s.2.dirs dir).inputs.rows)
    (hevent : eventFromDict setting.py p.event = .ok event)
    (hr : w.requests.lookup p.requestId = some r) : Bound event r := by
  obtain ⟨r₀, hr₀, hderived⟩ := honward.derived _ r hr
  exact (h.queued dir p hp event hevent r₀ hr₀).derived hderived

theorem Sound.store (c : StoreCall) (htimely : Timely setting s (.store c)) :
    Sound setting (perform setting s (.store c)) := by
  have hstate : perform setting s (.store c) =
      (((c.prog setting.py).run (Requests.exec setting.clock) s.1).2, s.2) := by
    unfold perform TakeoverCall.prog
    rw [Prog.run_map_snd, store_run]
  rw [hstate]
  refine ⟨h.fresh, ?_⟩
  let P : ControlRequest → Prop := fun r =>
    ∀ dir, ∀ p ∈ (s.2.dirs dir).inputs.rows, p.requestId = r.requestId →
      ∀ event, eventFromDict setting.py p.event = .ok event → Bound event r
  have hP : ∀ r r', Derived r' r → P r → P r' := fun r r' hderived hr dir p hp hid event hevent =>
    (hr dir p hp (hid.trans hderived.requestId) event hevent).derived hderived
  have hnew : ∀ r : ControlRequest, r.IsNew → P r := by
    intro r hr dir p _ _ event _ frameId hsome
    rw [hr.takeoverFrameId] at hsome
    cases hsome
  obtain ⟨id, hid⟩ := c.exists_target
  have hrecord : (∃ frame, c = .recordTakeoverFrame id frame) →
      ∀ r : ControlRequest, r.requestId = id → P r := by
    rintro ⟨frame, rfl⟩ r hid dir p hp hsame
    exact absurd (hsame.trans hid) (htimely dir p hp)
  have hstart : Holds P s.1 := by
    intro id r hr dir p hp hid event hevent
    refine h.queued dir p hp event hevent r ?_
    rw [hid, show r.requestId = id from key_of_lookup hr]
    exact hr
  intro dir p hp event hevent r hr
  exact run_holds hP hnew hrecord
    (c.prog_returns setting.py hid (fun _ _ h => h) Memory.empty fun frame h => ⟨frame, h⟩)
    hstart p.requestId r hr dir p hp
      (show r.requestId = p.requestId from key_of_lookup hr).symm event hevent

theorem Sound.input (handler : Server.Handler) (id eventId : String) (body : Dict)
    (htimely : Timely setting s (.input handler id eventId body)) :
    Sound setting (perform setting s (.input handler id eventId body)) := by
  have haccepts : Accepts setting id body s
      (perform setting s (.input handler id eventId body)) := by
    unfold perform TakeoverCall.prog
    rw [Prog.run_map_snd]
    exact postInput_accepts handler id eventId body s
  cases haccepts with
  | none honward hrelay =>
    refine ⟨by rw [hrelay]; exact h.fresh, fun dir p hp event hevent r hr => ?_⟩
    rw [hrelay] at hp
    exact h.queued_onward honward hp hevent hr
  | queue dir input event r honward hid hbody hevent hstored hbound hrelay =>
    refine ⟨by rw [hrelay]; exact h.fresh, fun d p hp event' hevent' r' hr' => ?_⟩
    rw [hrelay] at hp
    have hcases : p = input ∨ p ∈ (s.2.dirs d).inputs.rows := by
      by_cases hd : d = dir
      · subst hd
        simp only [Relay.update, update_self] at hp
        exact mem_insert hp
      · simp only [Relay.update, update_of_ne hd] at hp
        exact .inr hp
    rcases hcases with rfl | hold
    · rw [hbody, hevent] at hevent'
      cases hevent'
      rw [hid, hstored] at hr'
      cases hr'
      exact hbound
    · exact h.queued_onward honward hold hevent' hr'
  | apply w event r honward hevent hstored hbound hregistered happlies =>
    obtain ⟨r₀, hr₀, hderived⟩ := honward.derived id r hstored
    constructor
    · refine happlies.fresh h.fresh fun r' hr' hstatus => ?_
      obtain rfl : r' = r := Option.some.inj (hr'.symm.trans hstored)
      refine ⟨hbound, fun n hfrom hto => ?_⟩
      rw [staleFrame_derived hderived]
      exact htimely r₀ hr₀ (hderived.userControl hstatus)
        (hderived.browserContextId ▸ hregistered) n (honward.tick.trans hfrom) hto
    · intro dir p hp event' hevent' r' hr'
      rw [happlies.dirs] at hp
      exact h.queued_onward (honward.trans happlies.onward) hp hevent' hr'

theorem Sound.tick (contextId : String)
    (htimely : Timely setting s (.tick contextId)) :
    Sound setting (perform setting s (.tick contextId)) := by
  obtain ⟨w, relay, payloads, honward, hrun, happlied, -, hpayloads⟩ := tick_run setting contextId s
  have hstate : perform setting s (.tick contextId) =
      ((relayInputs setting.py payloads).run (exec setting) (w, relay)).2 := hrun
  have hlater := (relayInputs_onward setting payloads (w, relay)).1
  dsimp only [Timely] at htimely
  rw [hstate] at htimely ⊢
  constructor
  · refine relayInputs_fresh payloads le_rfl (fun p hp r hr hstatus => ?_) (happlied ▸ h.fresh)
    obtain ⟨r₀, hr₀, hderived⟩ := honward.derived _ r hr
    refine ⟨fun event hevent => h.queued_onward honward (hpayloads p hp) hevent hr, ?_⟩
    intro n hfrom hto
    rw [staleFrame_derived hderived]
    exact htimely p (hpayloads p hp) r₀ hr₀ (hderived.userControl hstatus) n
      (honward.tick.trans hfrom) hto
  · intro dir p hp event hevent r hr
    exact h.queued_onward (honward.trans hlater) (tick_inputs contextId dir (hrun ▸ hp)) hevent hr

end

/-- The clock stands still, and the browser belongs to another process. -/
def sidecar : Setting where
  py := .ascii
  clock _ := 0
  registered _ := false
  browser _ _ := .ok ()

/-- A takeover of the browser context `main`, and an empty relay directory. -/
def takeoverStarted : System :=
  (((RequestStore.create "req"
      { requestType := "human_takeover", origin := "https://example.com"
        topLevelUrl := "https://example.com/", actionSummary := "captcha"
        browserContextId := some "main" }).run (Requests.exec fun _ => 0) .empty).2,
    ⟨fun _ => ⟨none, .empty⟩, []⟩)

def recordFrame (frameId : String) : TakeoverCall :=
  .store (.recordTakeoverFrame "req" [("frame_id", .str frameId)])

def after (calls : List TakeoverCall) : System := calls.foldl (perform sidecar) takeoverStarted

end OmniDoer.Takeover
