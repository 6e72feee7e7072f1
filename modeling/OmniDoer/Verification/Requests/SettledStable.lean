import OmniDoer.Verification.Requests.Semantics

/-! # Settled requests

Reads leave a settled request alone, and so does every method that finds it used. The
guard of the other methods looks at the clock first and overwrites whatever status it
finds, so a settled request stays settled exactly as long as no guarded call comes
after its expiry. -/

namespace OmniDoer.Requests

open Py Effects Tables List Option RequestStore Table

variable {clock : ℕ → ℚ} {rid : String} {w : World}

def ControlRequest.Settled (r : ControlRequest) : Prop :=
  r.status ∈ [.consumed, .denied, .released, .challengeCompleted, .cancelled, .expired]

/-- The parts of a settled request that record how it was settled. -/
structure SameOutcome (r r' : ControlRequest) : Prop where
  status : r'.status = r.status
  approvalDecision : r'.approvalDecision = r.approvalDecision
  completedByUser : r'.completedByUser = r.completedByUser
  responseCiphertext : r'.responseCiphertext = r.responseCiphertext

theorem SameOutcome.refl (r : ControlRequest) : SameOutcome r r := ⟨rfl, rfl, rfl, rfl⟩

theorem SameOutcome.trans {a b c : ControlRequest} (h : SameOutcome a b) (h' : SameOutcome b c) :
    SameOutcome a c :=
  ⟨h'.status.trans h.status, h'.approvalDecision.trans h.approvalDecision,
    h'.completedByUser.trans h.completedByUser, h'.responseCiphertext.trans h.responseCiphertext⟩

variable {r : ControlRequest}

theorem ControlRequest.Settled.not_expirable (h : r.Settled) : r.status ∉ expirableStatuses := by
  unfold Settled at h
  cases hs : r.status <;> simp_all [expirableStatuses]

theorem ControlRequest.Settled.final (h : r.Settled) :
    (r.status ∈ completedRequestStatuses || r.status ∈ abortedRequestStatuses) = true := by
  unfold Settled at h
  cases hs : r.status <;> simp_all [completedRequestStatuses, abortedRequestStatuses]

/-- Does the call reach the guard when it finds this request? -/
def StoreCall.guards (r : ControlRequest) : StoreCall → Bool
  | .submitCiphertext id _ | .approve id | .deny id | .markChallengeCompleted id
  | .consumeApproval id => id == r.requestId
  | .releaseTakeover id | .recordTakeoverFrame id _ | .validateTakeoverFrame id _ _ =>
    id == r.requestId && r.requestType.isTakeover
  | .list _ | .create _ _ | .get _ | .cancel _ _ => false

theorem listLocked_frame (hr : r.status ∉ expirableStatuses)
    (hlookup : w.requests.lookup rid = some r) :
    (exec clock .listLocked w).2.requests.lookup rid = some r := by
  obtain ⟨u, _, he, _⟩ := w.requests.lookup_mapAccum (R := fun _ _ => True)
    (expireIfNeeded clock) (expireIfNeeded_requestId clock) (fun _ => trivial)
    (fun _ _ _ _ => trivial) w.tick rid
  rw [hlookup, map_some, expireIfNeeded_of_not_expirable hr] at he
  exact he

theorem exec_frame {id : String} {new : ControlRequest → Prop} {m : Memory} {o : StoreOp}
    (hid : rid ≠ id) (hr : r.status ∉ expirableStatuses)
    (hlookup : w.requests.lookup rid = some r) (hguar : (lifecycle id new).guar m o) :
    (exec clock o w).2.requests.lookup rid = some r := by
  cases o with
  | time | auditAppend => exact hlookup
  | getLocked requestId =>
    obtain rfl : requestId = id := hguar
    simp only [exec]
    split
    · exact hlookup
    · rename_i r' hr'
      have hkey : (expireIfNeeded clock r' w.tick).1.requestId = requestId := by
        rw [expireIfNeeded_requestId, key_of_lookup hr']
      rw [lookup_insert, if_neg (hkey ▸ hid), hlookup]
  | updateLocked r' =>
    obtain ⟨r₀, t, _, hid₀, _, rfl, -⟩ := hguar
    exact (lookup_insert_of_ne _ (by simpa [hid₀] using hid)).trans hlookup
  | listLocked => exact listLocked_frame hr hlookup
  | createLocked r' => exact (lookup_insert_of_ne _ (hguar.1 ▸ hid)).trans hlookup

def afterGuard (clock : ℕ → ℚ) (r : ControlRequest) (tick : ℕ) : ControlRequest :=
  if r.isExpired (clock tick) then (Transition.expire.apply r).touch (clock (tick + 1)) else r

variable (clock) in
theorem get_run_settled {r : ControlRequest} (hs : r.Settled)
    (hlookup : w.requests.lookup rid = some r) :
    (RequestStore.get rid).run (exec clock) w =
      (.ok r, { w with requests := w.requests.insert r }) := by
  rw [get_run_of_lookup hlookup, expireIfNeeded_of_not_expirable hs.not_expirable]

theorem lookup_insert_stored (hlookup : w.requests.lookup rid = some r) :
    (w.requests.insert r).lookup rid = some r := by
  rw [← key_of_lookup hlookup, lookup_insert_self]

theorem ensureActionable_run_settled (hs : r.Settled)
    (hused : r.isExpired (clock w.tick) = false → r.used = true)
    (hlookup : w.requests.lookup rid = some r) (allowFulfilled : Bool) :
    ∃ e, ((RequestStore.ensureActionable r allowFulfilled).run (exec clock) w).1 = .error e ∧
      ((RequestStore.ensureActionable r allowFulfilled).run (exec clock) w).2.requests.lookup rid =
        some (afterGuard clock r w.tick) := by
  unfold afterGuard
  cases hexp : r.isExpired (clock w.tick) with
  | true =>
    obtain ⟨audit, hrun⟩ := ensureActionable_run_expired allowFulfilled hexp
    rw [hrun]
    refine ⟨_, rfl, ?_⟩
    rw [← key_of_lookup hlookup]
    exact lookup_insert_self _ _
  | false =>
    have hact : ¬ Actionable allowFulfilled r := by
      intro hact
      have hfulfilled := (hact (hused hexp)).2
      simp [ControlRequest.Settled, hfulfilled] at hs
    rw [ensureActionable_run_used hexp hact]
    exact ⟨_, rfl, hlookup⟩

/-- A program that raises with the settled request rewritten by the guard, or left alone. -/
def Rejects (clock : ℕ → ℚ) (rid : String) (w : World) (r : ControlRequest) {α : Type}
    (p : StoreProg α) : Prop :=
  ∃ e, (p.run (exec clock) w).1 = .error e ∧ (p.run (exec clock) w).2.requests.lookup rid = some r

theorem Rejects.bind {α β : Type} {p : StoreProg α}
    (h : Rejects clock rid w r p) (f : α → StoreProg β) : Rejects clock rid w r (p >>= f) := by
  obtain ⟨e, he, hlookup⟩ := h
  unfold Rejects
  rw [Prog.run_bind_of_error he]
  exact ⟨e, rfl, hlookup⟩

section Settled

variable {r : ControlRequest} (hs : r.Settled)
  (hused : r.isExpired (clock w.tick) = false → r.used = true)
  (hlookup : w.requests.lookup rid = some r)

include hs hused hlookup

theorem getActionable_rejects (allowFulfilled : Bool) :
    Rejects clock rid w (afterGuard clock r w.tick)
      (RequestStore.getActionable rid allowFulfilled) := by
  have hget := get_run_settled clock hs hlookup
  obtain ⟨e, he, hstored⟩ := ensureActionable_run_settled (w := { w with
    requests := w.requests.insert r }) hs hused (lookup_insert_stored hlookup) allowFulfilled
  unfold Rejects getActionable
  rw [Prog.run_bind_ok hget, Prog.run_bind_of_error he]
  exact ⟨e, rfl, hstored⟩

theorem getTakeover_rejects :
    Rejects clock rid w (if r.requestType.isTakeover then afterGuard clock r w.tick else r)
      (RequestStore.getTakeover rid) := by
  have hget := get_run_settled clock hs hlookup
  unfold Rejects getTakeover
  rw [Prog.run_bind_ok hget]
  cases htype : r.requestType.isTakeover with
  | true =>
    obtain ⟨e, he, hstored⟩ := ensureActionable_run_settled (w := { w with
      requests := w.requests.insert r }) hs hused (lookup_insert_stored hlookup) false
    simp only [if_true]
    rw [Prog.run_bind_of_error he]
    exact ⟨e, rfl, hstored⟩
  | false => exact ⟨_, rfl, lookup_insert_stored hlookup⟩

/-- A call on the settled request itself. -/
theorem StoreCall.run_settled_target (py : Interpreter) (c : StoreCall) (hc : c.isCreate = false)
    (htarget : c.target = some rid) :
    ((c.prog py).run (exec clock) w).2.requests.lookup rid =
      some (if c.guards r then afterGuard clock r w.tick else r) := by
  have hrid : r.requestId = rid := key_of_lookup hlookup
  have hget := get_run_settled clock hs hlookup
  have hactionable := getActionable_rejects hs hused hlookup
  have htakeover := getTakeover_rejects hs hused hlookup
  -- a call that is rejected leaves what the guard left
  have rejected {α : Type} {p : StoreProg α} {r' : ControlRequest} (h : Rejects clock rid w r' p)
      (f : α → List ControlRequest) :
      ((f <$> p).run (exec clock) w).2.requests.lookup rid = some r' := by
    obtain ⟨_, _, hstored⟩ := h
    rw [Prog.run_map_snd]
    exact hstored
  cases c with
  | list b => cases htarget
  | create id args => cases hc
  | get id =>
    obtain rfl := some.inj htarget
    rw [StoreCall.prog, Prog.run_map_snd, hget]
    exact lookup_insert_stored hlookup
  | cancel id reason =>
    obtain rfl := some.inj htarget
    rw [StoreCall.prog, Prog.run_map_snd, RequestStore.cancel,
      Prog.run_bind_ok hget, if_pos hs.final]
    exact lookup_insert_stored hlookup
  | submitCiphertext | approve | deny | consumeApproval =>
    obtain rfl := some.inj htarget
    rw [if_pos (by simp [guards, hrid])]
    exact rejected ((hactionable false).bind _) _
  | markChallengeCompleted id =>
    obtain rfl := some.inj htarget
    rw [if_pos (by simp [guards, hrid])]
    exact rejected ((hactionable true).bind _) _
  | releaseTakeover | recordTakeoverFrame | validateTakeoverFrame =>
    obtain rfl := some.inj htarget
    rw [guards, hrid, beq_self_eq_true]
    exact rejected (htakeover.bind _) _

theorem StoreCall.run_settled (py : Interpreter) (c : StoreCall)
    (hc : c.isCreate = true → c.target ≠ some rid) :
    ((c.prog py).run (exec clock) w).2.requests.lookup rid =
      some (if c.guards r then afterGuard clock r w.tick else r) := by
  by_cases htarget : c.target = some rid
  · have hcreate : c.isCreate = false := by
      by_contra h
      exact hc (by simpa using h) htarget
    exact c.run_settled_target hs hused hlookup py hcreate htarget
  · have hguards : c.guards r = false := by
      rw [← key_of_lookup hlookup] at htarget
      cases c <;> simp_all [guards, target]
    rw [hguards]
    cases hcases : c.target with
    | none =>
      obtain ⟨b, rfl⟩ : ∃ b, c = .list b := by
        cases c <;> simp_all [target]
      cases b <;> exact listLocked_frame hs.not_expirable hlookup
    | some id =>
      have hid : ∀ t ∈ c.target, t = id := by simp [hcases]
      have hreturns := c.prog_returns py hid (fun _ _ hr => hr) Memory.empty fun _ _ => True.intro
      obtain ⟨_, hfinal, _⟩ := Prog.Meets.run (fun (_ : Memory) w => w.requests.lookup rid = some r)
        (fun m w o hi hguar => ⟨exec_rely id _ o w,
          exec_frame (fun he => htarget (by rw [hcases, he])) hs.not_expirable hi hguar⟩)
            hreturns hlookup
      exact hfinal

end Settled

/-- A request that is expired was found expired by an earlier reading of the clock. -/
def ExpiredPast (clock : ℕ → ℚ) (n : ℕ) (r : ControlRequest) : Prop :=
  r.status = .expired → ∃ k < n, r.expiresAt < clock k

theorem expiredPast_recordInvariant : RecordInvariant clock (ExpiredPast clock) where
  mono := fun hn h hs => by
    obtain ⟨k, hk, hlt⟩ := h hs
    exact ⟨k, hk.trans_le hn, hlt⟩
  touch := fun _ h => h
  transition := by
    intro n r now t hnow ht h hs
    cases t with
    | expire =>
      obtain ⟨x, hx, hexp⟩ := ht
      obtain ⟨k, hk, rfl⟩ := hnow x hx
      exact ⟨k, hk, by simpa [ControlRequest.isExpired] using hexp⟩
    | recordFrame frameId capturedAt width height => exact h hs
    | _ => cases hs

/-- The step does not reach the guard with a settled request after its expiry. -/
def GuardInTime (clock : ℕ → ℚ) (rid : String) (w : World) (c : StoreCall) : Prop :=
  ∀ r ∈ w.requests.lookup rid, r.Settled → r.status ≠ .expired → c.guards r = true →
    clock w.tick ≤ r.expiresAt

theorem afterGuard_settled (hs : r.Settled) (n : ℕ) : (afterGuard clock r n).Settled := by
  unfold afterGuard
  split
  · simp [ControlRequest.Settled, Transition.apply]
  · exact hs

theorem afterGuard_sameOutcome {n : ℕ}
    (h : r.status ≠ .expired → clock n ≤ r.expiresAt) : SameOutcome r (afterGuard clock r n) := by
  unfold afterGuard
  split
  · rename_i hexp
    by_cases hs : r.status = .expired
    · exact ⟨hs.symm, rfl, rfl, rfl⟩
    · exact absurd (h hs) (not_le.2 (by simpa [ControlRequest.isExpired] using hexp))
  · exact .refl r

def Lives (clock : ℕ → ℚ) (n : ℕ) (r : ControlRequest) : Prop :=
  r.Sound ∧ ExpiredPast clock n r

theorem Lives.used_of_settled (hclock : Monotone clock) {n : ℕ}
    (h : Lives clock n r) (hs : r.Settled) (hexp : r.isExpired (clock n) = false) :
    r.used = true := by
  by_cases he : r.status = .expired
  · obtain ⟨k, hk, hlt⟩ := h.2 he
    have hle : clock k ≤ clock n := hclock hk.le
    have hlate : r.isExpired (clock n) = true := by
      simpa [ControlRequest.isExpired] using hlt.trans_le hle
    rw [hlate] at hexp
    cases hexp
  · apply h.1.used
    unfold ControlRequest.Settled at hs
    cases hstatus : r.status <;> simp_all

theorem stores_lives_of_create {args : RequestStore.CreateArgs} {request : ControlRequest}
    (h : ((RequestStore.create rid args).run (exec clock) w).1 = .ok request) :
    Stores (Lives clock) rid ((RequestStore.create rid args).run (exec clock) w).2 := by
  intro r hr
  refine ⟨stores_sound_of_create h r hr, fun hs => ?_⟩
  obtain ⟨hlookup, requestType, expiresAt, createdAt, updatedAt, _, rfl⟩ :=
    create_ok h
  obtain rfl := some.inj (hlookup.symm.trans hr)
  rcases (newRequest_isNew rid requestType args expiresAt createdAt updatedAt).status with he | he
  · cases he.symm.trans hs
  · cases he.symm.trans hs

def stepCall (clock : ℕ → ℚ) (py : Interpreter) (w : World) (c : StoreCall) : World :=
  ((c.prog py).run (exec clock) w).2

/-- At whatever point of the run the request is settled, it ends with the same outcome. -/
def StaysSettled (clock : ℕ → ℚ) (py : Interpreter) (rid : String) (w : World)
    (calls : List StoreCall) : Prop :=
  ∀ before after r, calls = before ++ after →
    (runCalls clock py w before).requests.lookup rid = some r → r.Settled →
    ∃ r', (runCalls clock py w calls).requests.lookup rid = some r' ∧ SameOutcome r r'

/-- No call of the run reaches the guard with the settled request after its expiry. -/
abbrev GuardsInTime (clock : ℕ → ℚ) (py : Interpreter) (rid : String) (w : World)
    (calls : List StoreCall) : Prop :=
  Along (stepCall clock py) (GuardInTime clock rid) w calls

theorem staysSettled_cons {py : Interpreter} {c : StoreCall} {rest : List StoreCall} :
    StaysSettled clock py rid w (c :: rest) ↔
      (∀ r, w.requests.lookup rid = some r → r.Settled →
        ∃ r', (runCalls clock py (stepCall clock py w c) rest).requests.lookup rid = some r' ∧
          SameOutcome r r') ∧
      StaysSettled clock py rid (stepCall clock py w c) rest := by
  constructor
  · intro h
    exact ⟨fun r => h [] (c :: rest) r rfl,
      fun before after r he => h (c :: before) after r (by rw [he]; rfl)⟩
  · rintro ⟨hhead, htail⟩ before after r he
    cases before with
    | nil => exact hhead r
    | cons c' before =>
      rw [cons_append, cons.injEq] at he
      obtain ⟨rfl, he⟩ := he
      exact htail before after r he

/-- The step lemma: the head of a run meets the condition exactly when it does not change
the outcome that the rest of the run keeps. -/
theorem guardInTime_iff (hclock : Monotone clock) {py : Interpreter} {c : StoreCall}
    {rest : List StoreCall} (hc : c.isCreate = true → c.target ≠ some rid)
    (hw : Stores (Lives clock) rid w)
    (hrest : StaysSettled clock py rid (stepCall clock py w c) rest) :
    (∀ r, w.requests.lookup rid = some r → r.Settled →
      ∃ r', (runCalls clock py (stepCall clock py w c) rest).requests.lookup rid = some r' ∧
        SameOutcome r r') ↔ GuardInTime clock rid w c := by
  have hnext {r : ControlRequest} (hr : w.requests.lookup rid = some r) (hs : r.Settled) :
      (stepCall clock py w c).requests.lookup rid =
        some (if c.guards r then afterGuard clock r w.tick else r) :=
    c.run_settled hs ((hw r hr).used_of_settled hclock hs) hr py hc
  constructor
  · intro h r hr hs hne hguards
    by_contra hlate
    have hexp : r.isExpired (clock w.tick) = true := by
      simpa [ControlRequest.isExpired] using hlate
    -- the guard has just written `expired` over the settled status
    have hwritten := hnext hr hs
    rw [if_pos hguards, afterGuard, if_pos hexp] at hwritten
    obtain ⟨r₁, hr₁, hsame₁⟩ := h r hr hs
    obtain ⟨r₂, hr₂, hsame₂⟩ := hrest [] rest _ rfl hwritten
      (by simp [ControlRequest.Settled, Transition.apply])
    obtain rfl := some.inj (hr₁.symm.trans hr₂)
    exact hne (hsame₁.status.symm.trans hsame₂.status)
  · intro htime r hr hs
    by_cases hguards : c.guards r = true
    · have hwritten := hnext hr hs
      rw [if_pos hguards] at hwritten
      obtain ⟨r', hr', hsame⟩ := hrest [] rest _ rfl hwritten (afterGuard_settled hs w.tick)
      exact ⟨r', hr', (afterGuard_sameOutcome fun he => htime r hr hs he hguards).trans hsame⟩
    · have hkept := hnext hr hs
      rw [if_neg hguards] at hkept
      exact hrest [] rest r rfl hkept hs

theorem staysSettled_iff (hclock : Monotone clock) (py : Interpreter) {calls : List StoreCall}
    (hcalls : NotRecreated rid calls) (hw : Stores (Lives clock) rid w) :
    StaysSettled clock py rid w calls ↔ GuardsInTime clock py rid w calls := by
  induction calls generalizing w with
  | nil =>
    refine ⟨fun _ => trivial, fun _ before after r he hr _ => ?_⟩
    obtain ⟨rfl, rfl⟩ := append_eq_nil_iff.1 he.symm
    exact ⟨r, hr, .refl r⟩
  | cons c rest ih =>
    have hc := hcalls c mem_cons_self
    have hrest : NotRecreated rid rest := fun c' hc' => hcalls c' (mem_cons_of_mem _ hc')
    have htail :=
      ih hrest (c.run_stores (sound_recordInvariant.and expiredPast_recordInvariant) py hc hw)
    rw [staysSettled_cons]
    constructor
    · rintro ⟨hhead, hstays⟩
      exact ⟨(guardInTime_iff hclock hc hw hstays).1 hhead, htail.1 hstays⟩
    · rintro ⟨hhead, hguards⟩
      exact ⟨(guardInTime_iff hclock hc hw (htail.2 hguards)).2 hhead, htail.2 hguards⟩

/-- A created request that is settled keeps its outcome along a run exactly when no
guarded call of the run meets it after its expiry. -/
theorem settled_stable_iff (clock : ℕ → ℚ) (hclock : Monotone clock) (py : Interpreter)
    (rid : String) (args : RequestStore.CreateArgs) (w : World) (request : ControlRequest)
    (hcreate : ((RequestStore.create rid args).run (exec clock) w).1 = .ok request)
    (calls : List StoreCall) (hcalls : NotRecreated rid calls) :
    StaysSettled clock py rid ((RequestStore.create rid args).run (exec clock) w).2 calls ↔
      GuardsInTime clock py rid ((RequestStore.create rid args).run (exec clock) w).2 calls :=
  staysSettled_iff hclock py hcalls (stores_lives_of_create hcreate)

instance (clock : ℕ → ℚ) (rid : String) (w : World) (c : StoreCall) :
    Decidable (GuardInTime clock rid w c) := by
  unfold GuardInTime ControlRequest.Settled
  infer_instance

/-- Within the lifetime of the request the denial stands. -/
theorem settled_stable_iff_in_time :
    StaysSettled (fun n => n) .ascii "req_1"
      ((RequestStore.create "req_1" (payment 300)).run (exec fun n => n) .empty).2
      [.deny "req_1", .approve "req_1"] := by
  obtain ⟨request, hrequest⟩ := Except.exists_eq_ok
    (x := ((create "req_1" (payment 300)).run (exec fun n => n) .empty).1)
    (by decide +kernel)
  have hcalls : NotRecreated "req_1" [.deny "req_1", .approve "req_1"] := by
    intro c hc hcreate
    simp only [mem_cons, not_mem_nil, or_false] at hc
    rcases hc with rfl | rfl <;> cases hcreate
  exact (settled_stable_iff _ Nat.mono_cast .ascii "req_1" (payment 300) .empty request hrequest _
    hcalls).2 (by decide +kernel)

/-- After its expiry an attempt to approve turns a denied request into an expired one. -/
theorem denied_becomes_expired :
    ((runCalls (fun n => n) .ascii
        ((RequestStore.create "req_1" (payment 5)).run (exec fun n => n) .empty).2
        [.deny "req_1"]).requests.lookup "req_1").map ControlRequest.status = some .denied ∧
      ((runCalls (fun n => n) .ascii
        ((RequestStore.create "req_1" (payment 5)).run (exec fun n => n) .empty).2
        [.deny "req_1", .approve "req_1"]).requests.lookup "req_1").map ControlRequest.status =
          some .expired := by
  decide +kernel

end OmniDoer.Requests
