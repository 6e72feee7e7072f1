import OmniDoer.Model.ChallengeGuard
import OmniDoer.Model.Server
import OmniDoer.Verification.Requests.Semantics

/-! # When the agent resumes after a takeover

The agent polls the takeover request while the Control Client acts on it through the
server. The loop is left for the status `released`, but also for a response ciphertext,
whatever the status is then. -/

namespace OmniDoer.ChallengeGuard

open Py Effects Requests Tables List RequestStore

variable {rid : String}

/-- The request lets the agent resume when a poll hands it out. -/
def LetsResume (r : ControlRequest) : Prop :=
  r.status = .released ∨ r.responseCiphertext.isSome = true ∧ r.status ∉ abortedRequestStatuses

def afterRead (rid : String) (deadline : ℚ) (fuel : ℕ) (request : ControlRequest) :
    StoreProg (Option ControlRequest) :=
  if pollExits false [.released] request then return some request
  else pollRequest rid deadline false [.released] fuel

def afterTime (rid : String) (deadline : ℚ) (fuel : ℕ) (t : ℚ) :
    StoreProg (Option ControlRequest) :=
  if t < deadline then RequestStore.get rid >>= afterRead rid deadline fuel
  else .raise ⟨.timeoutError, "timed out waiting for Control Client request"⟩

/-- The programs that the waiting agent can still have to run. -/
inductive Waiting (rid : String) : StoreProg (Option Unit) → Prop
  | start (timeoutSeconds : ℚ) (fuel : ℕ) : Waiting rid (waitForRelease rid timeoutSeconds fuel)
  | polling (deadline : ℚ) (fuel : ℕ) :
      Waiting rid (releaseReport.around rid (pollRequest rid deadline false [.released] fuel))
  | reading (deadline : ℚ) (fuel : ℕ) :
      Waiting rid (releaseReport.around rid (RequestStore.get rid >>= afterRead rid deadline fuel))
  | reporting (event : AuditEvent) (e : Error) :
      Waiting rid (StoreProg.auditAppend event >>= fun _ => .raise e)
  | raised (e : Error) : Waiting rid (.raise e)
  | returned (result : Option Unit) : Waiting rid (.pure result)

/-- What the waiting agent does next: it ends its wait at a poll only. -/
def WaitsNext (rid : String) : StoreProg (Option Unit) → Prop
  | .op .time k => ∀ t, Waiting rid (k t) ∧ (k t).returned ≠ some (some ())
  | .op (.getLocked requestId) k =>
    requestId = rid ∧ ∀ x, Waiting rid (k x) ∧
      ((k x).returned = some (some ()) ↔ ∃ r, x = .ok r ∧ LetsResume r)
  | .op (.auditAppend _) k => ∀ x, Waiting rid (k x) ∧ (k x).returned ≠ some (some ())
  | .op _ _ => False
  | _ => True

variable (rid) in
theorem waiting_of_error (e : Error) :
    Waiting rid (releaseReport.around rid (.raise e)) ∧
      (releaseReport.around rid (.raise e)).returned ≠ some (some ()) := by
  unfold WaitReport.around
  simp only [Prog.handle, WaitReport.onError]
  split
  · exact ⟨.reporting _ _, by simp [StoreProg.auditAppend, Prog.returned]⟩
  · exact ⟨.raised e, by simp [Prog.returned]⟩

variable (rid) in
theorem waiting_of_request (r : ControlRequest) :
    Waiting rid (releaseReport.around rid (.pure (some r))) ∧
      ((releaseReport.around rid (.pure (some r))).returned = some (some ()) ↔
        r.status ∉ abortedRequestStatuses) := by
  change Waiting rid (releaseReport.onResult rid (some r)) ∧
    ((releaseReport.onResult rid (some r)).returned = some (some ()) ↔ _)
  simp only [WaitReport.onResult]
  split
  · rename_i haborted
    exact ⟨.reporting _ _, by simp [StoreProg.auditAppend, Prog.returned, haborted]⟩
  · rename_i haborted
    exact ⟨.returned _, by simp [Prog.returned, haborted]⟩

theorem pollExits_release_iff (r : ControlRequest) :
    pollExits false [.released] r = true ∧ r.status ∉ abortedRequestStatuses ↔ LetsResume r := by
  have hreleased : RequestStatus.released ∉ abortedRequestStatuses := by decide
  unfold pollExits LetsResume
  simp only [Bool.or_eq_true, Bool.and_eq_true, decide_eq_true_eq, mem_singleton]
  constructor
  · rintro ⟨(hc | hr) | ha, hnot⟩
    · exact .inr ⟨hc, hnot⟩
    · exact .inl hr.1
    · exact absurd ha hnot
  · rintro (hr | ⟨hc, hnot⟩)
    · exact ⟨.inl (.inr ⟨hr, rfl⟩), hr ▸ hreleased⟩
    · exact ⟨.inl (.inl hc), hnot⟩

variable (rid) in
theorem polling_not_returned (deadline : ℚ) (fuel : ℕ) :
    (releaseReport.around rid (pollRequest rid deadline false [.released] fuel)).returned ≠
      some (some ()) := by
  cases fuel with
  | zero | succ =>
    intro h
    cases h

variable (rid) in
theorem waiting_afterTime (deadline : ℚ) (fuel : ℕ) (t : ℚ) :
    Waiting rid (releaseReport.around rid (afterTime rid deadline fuel t)) ∧
      (releaseReport.around rid (afterTime rid deadline fuel t)).returned ≠ some (some ()) := by
  unfold afterTime
  split
  · refine ⟨.reading deadline fuel, ?_⟩
    intro h
    cases h
  · exact waiting_of_error rid _

variable (rid) in
theorem waiting_afterRead (deadline : ℚ) (fuel : ℕ) (r : ControlRequest) :
    Waiting rid (releaseReport.around rid (afterRead rid deadline fuel r)) ∧
      ((releaseReport.around rid (afterRead rid deadline fuel r)).returned = some (some ()) ↔
        LetsResume r) := by
  rw [← pollExits_release_iff]
  unfold afterRead
  split
  · rename_i hexits
    have hrequest := waiting_of_request rid r
    exact ⟨hrequest.1, hrequest.2.trans (and_iff_right hexits).symm⟩
  · rename_i hexits
    refine ⟨.polling deadline fuel, ?_⟩
    exact ⟨fun h => absurd h (polling_not_returned rid deadline fuel), fun h => absurd h.1 hexits⟩

theorem Waiting.next {p : StoreProg (Option Unit)} (h : Waiting rid p) : WaitsNext rid p := by
  cases h with
  | start timeoutSeconds fuel => exact fun t => ⟨.polling _ fuel, polling_not_returned rid _ fuel⟩
  | polling deadline fuel =>
    cases fuel with
    | zero => trivial
    | succ fuel => exact waiting_afterTime rid deadline fuel
  | reading deadline fuel =>
    refine ⟨rfl, fun x => ?_⟩
    cases x with
    | error e =>
      obtain ⟨hwaiting, hnot⟩ := waiting_of_error rid e
      exact ⟨hwaiting, fun h => absurd h hnot, fun ⟨r, hr, _⟩ => (nomatch hr)⟩
    | ok r =>
      obtain ⟨hwaiting, hiff⟩ := waiting_afterRead rid deadline fuel r
      refine ⟨hwaiting, hiff.trans ⟨fun hr => ⟨r, rfl, hr⟩, ?_⟩⟩
      rintro ⟨r', ⟨rfl⟩, hr⟩
      exact hr
  | reporting event e =>
    refine fun _ => ⟨.raised e, ?_⟩
    intro h
    cases h
  | raised | returned => trivial

theorem WaitsNext.waiting {o : StoreOp} {k : o.Ans → StoreProg (Option Unit)}
    (h : WaitsNext rid (.op o k)) (x : o.Ans) : Waiting rid (k x) := by
  cases o with
  | time | auditAppend => exact (h x).1
  | getLocked requestId => exact (h.2 x).1
  | updateLocked | listLocked | createLocked => exact h.elim

theorem routeTakeover_ok {clock : ℕ → ℚ} {args : TakeoverArgs} {w : World}
    {resolution : ChallengeResolution}
    (h : ((routeTakeover args).run (exec clock) w).1 = .ok (some resolution)) :
    resolution.agentResumed = true ∧
      ∃ requestId w', ((waitForRelease requestId args.timeoutSeconds args.fuel).run
        (exec clock) w').1 = .ok (some ()) := by
  unfold routeTakeover at h
  obtain ⟨request, _, hrequest⟩ := Prog.run_bind_eq_ok h
  rw [hrequest] at h
  obtain ⟨frame, _, hstream⟩ := Prog.run_bind_eq_ok h
  rw [hstream] at h
  obtain ⟨result, hwait, hrun⟩ := Prog.run_bind_eq_ok h
  rw [hrun] at h
  cases result with
  | none => cases h
  | some _ =>
    cases h
    exact ⟨rfl, request.requestId, _, hwait⟩

/-- The agent, a Control Client behind the server, or any other client of the store. -/
inductive Caller where
  | waiter (timeoutSeconds : ℚ) (fuel : ℕ)
  | action (handler : Server.Handler) (a : Server.RequestAction)
  | call (c : StoreCall)

def Caller.prog (py : Interpreter) (rid : String) : Caller → StoreProg (Option Unit)
  | .waiter timeoutSeconds fuel => waitForRelease rid timeoutSeconds fuel
  | .action handler a => (fun _ => none) <$> Server.postRequestAction handler rid a
  | .call c => (fun _ => none) <$> c.prog py

/-- The caller acts on the request and does not create one. -/
def Caller.On (rid : String) : Caller → Prop
  | .call c => c.isCreate = false ∧ ∀ t ∈ c.target, t = rid
  | _ => True

variable {new : ControlRequest → Prop}

theorem postRequestAction_returns (handler : Server.Handler) (action : Server.RequestAction)
    (m : Memory) :
    (Server.postRequestAction handler rid action).Returns (lifecycle rid new)
      (fun _ _ => True) m := by
  have hget : (Server.getRequestForSession handler rid).Returns (lifecycle rid new)
      (fun _ _ => True) m := by
    refine .bind get_returns fun m request _ => ?_
    split
    · exact .pure trivial
    · exact .raise
  refine .bind hget fun m controlRequest _ => ?_
  cases action with
  | approve body =>
    simp only
    split
    · exact .pure trivial
    · refine .map (q := fun _ _ => True) ?_ fun _ _ _ => trivial
      refine .bind approve_returns fun m request _ => ?_
      split
      · refine .bind (q := fun _ _ => True) (.ofExcept fun _ _ => trivial) fun m _ _ => ?_
        exact consumeApproval_returns.mono fun _ _ _ => trivial
      · exact .pure trivial
  | deny => exact .map deny_returns fun _ _ _ => trivial
  | release => exact .map releaseTakeover_returns fun _ _ _ => trivial
  | completeChallenge => exact .map markChallengeCompleted_returns fun _ _ _ => trivial
  | submit body =>
    refine .bind (q := fun _ _ => True) (.ofExcept fun _ _ => trivial) fun m envelope _ => ?_
    refine .bind (q := fun _ _ => True) (.ofExcept fun _ _ => trivial) fun m _ _ => ?_
    exact .map (submitCiphertext_returns envelope) fun _ _ _ => trivial

theorem waitForRelease_returns (timeoutSeconds : ℚ) (fuel : ℕ) (m : Memory) :
    (waitForRelease rid timeoutSeconds fuel).Returns (lifecycle rid new) (fun _ _ => True) m := by
  have hpoll (deadline : ℚ) (m : Memory) :
      (pollRequest rid deadline false [.released] fuel).Returns (lifecycle rid new)
        (fun _ _ => True) m := by
    induction fuel generalizing m with
    | zero => exact .pure trivial
    | succ fuel ih =>
      refine .op trivial fun t _ => ?_
      simp only [Prog.bind]
      split
      · refine .bind get_returns fun m request _ => ?_
        split
        · exact .pure trivial
        · exact ih m
      · exact .raise
  refine .bind (.handle (.op trivial fun t _ => hpoll _ _) fun m e => ?_) fun m result _ => ?_
  · unfold WaitReport.onError
    split
    · exact .op trivial fun _ _ => .raise
    · exact .raise
  · cases result with
    | none => exact .pure trivial
    | some request =>
      simp only [WaitReport.onResult]
      split
      · exact .op trivial fun _ _ => .raise
      · exact .pure trivial

theorem Caller.prog_returns (py : Interpreter) {c : Caller} (hc : c.On rid) (m : Memory) :
    (c.prog py rid).Returns (lifecycle rid fun _ => False) (fun _ _ => True) m := by
  cases c with
  | waiter timeoutSeconds fuel => exact waitForRelease_returns timeoutSeconds fuel m
  | action handler a => exact .map (postRequestAction_returns handler a m) fun _ _ _ => trivial
  | call c =>
    have hnew (hcreate : c.isCreate = true) : ∀ r : ControlRequest, r.IsNew → False := by
      rw [hc.1] at hcreate
      cases hcreate
    exact .map (c.prog_returns py hc.2 hnew m) fun _ _ _ => trivial

section Pools

variable {ι : Type} [DecidableEq ι] {clock : ℕ → ℚ}

def start (py : Interpreter) (rid : String) (callers : ι → Caller) (w : World) :
    StorePool ι (Option Unit) :=
  ⟨w, fun i => (callers i).prog py rid, []⟩

def HasResumed (agent : ι) (pool : StorePool ι (Option Unit)) : Prop :=
  (pool.threads agent).returned = some (some ())

instance (agent : ι) (pool : StorePool ι (Option Unit)) : Decidable (HasResumed agent pool) :=
  inferInstanceAs (Decidable (_ = _))

/-- If the step ends the wait, the stored request is released. -/
def ResumesReleased (clock : ℕ → ℚ) (rid : String) (agent : ι) (pool : StorePool ι (Option Unit))
    (i : ι) : Prop :=
  ¬ HasResumed agent pool → HasResumed agent (pool.step (exec clock) i) →
    ((pool.step (exec clock) i).state.requests.lookup rid).map ControlRequest.status =
      some .released

instance (clock : ℕ → ℚ) (rid : String) (agent : ι) (pool : StorePool ι (Option Unit)) (i : ι) :
    Decidable (ResumesReleased clock rid agent pool i) :=
  inferInstanceAs (Decidable (_ → _ → _ = _))

/-- The agent is about to poll, and will be given a response that the user submitted. -/
def pollsResponse (clock : ℕ → ℚ) (rid : String) (agent : ι) (pool : StorePool ι (Option Unit)) :
    Bool :=
  match pool.threads agent with
  | .op (.getLocked _) _ =>
    match (exec clock (.getLocked rid) pool.state).1 with
    | .ok r => r.responseCiphertext.isSome && r.status ∈ [.fulfilled, .challengeCompleted]
    | .error _ => false
  | _ => false

/-- What holds along every run of the pool. -/
structure TakeoverKeeps (clock : ℕ → ℚ) (rid : String) (agent : ι)
    (pool : StorePool ι (Option Unit)) : Prop where
  keeps : PoolKeeps clock (fun _ r => r.Sound) rid (fun _ _ _ => True) pool
  waiting : Waiting rid (pool.threads agent)

variable {pool : StorePool ι (Option Unit)}

variable {agent : ι} (h : TakeoverKeeps clock rid agent pool)

include h in
theorem TakeoverKeeps.step (i : ι) : TakeoverKeeps clock rid agent (pool.step (exec clock) i) := by
  refine ⟨h.keeps.step sound_recordInvariant i, ?_⟩
  by_cases hi : i = agent
  · subst hi
    rcases pool.step_cases (exec clock) i with he | ⟨o, k, ht, he⟩
    · rw [he]
      exact h.waiting
    · have hnext := h.waiting.next
      rw [ht] at hnext
      rw [he]
      simp only [Function.update_self]
      exact hnext.waiting _
  · rw [Pool.step_threads_of_ne _ _ (Ne.symm hi)]
    exact h.waiting

theorem released_of_letsResume_iff {r : ControlRequest} (hr : r.Sound) :
    (LetsResume r → r.status = .released) ↔
      ¬ (r.responseCiphertext.isSome = true ∧ r.status ∈ [.fulfilled, .challengeCompleted]) := by
  constructor
  · rintro h ⟨hsome, hstatus⟩
    have hnot : r.status ∉ abortedRequestStatuses := by
      simp only [mem_cons, not_mem_nil, or_false] at hstatus
      rcases hstatus with he | he <;> simp [he, abortedRequestStatuses]
    rw [h (.inr ⟨hsome, hnot⟩)] at hstatus
    simp at hstatus
  · rintro h (hreleased | ⟨hsome, hnot⟩)
    · exact hreleased
    · have hstatus := (hr.responseCiphertext (Option.isSome_iff_ne_none.1 hsome)).2
      simp only [mem_cons, not_mem_nil, or_false] at hstatus h
      rcases hstatus with he | he | he
      · exact absurd ⟨hsome, .inl he⟩ h
      · exact absurd ⟨hsome, .inr he⟩ h
      · simp [he, abortedRequestStatuses] at hnot

include h in
theorem TakeoverKeeps.poll {r : ControlRequest}
    (hr : (exec clock (.getLocked rid) pool.state).1 = .ok r) :
    r.Sound ∧ (exec clock (.getLocked rid) pool.state).2.requests.lookup rid = some r := by
  have hlookup := exec_getLocked_lookup hr
  have hstores : Stores (fun _ r => r.Sound) rid (exec clock (.getLocked rid) pool.state).2 :=
    (exec_keeps sound_recordInvariant (fun _ _ _ hfalse => hfalse.elim) h.keeps.stores
      (h.keeps.remembers agent)
      (show (lifecycle rid fun _ => False).guar _ (.getLocked rid) from rfl)).1
  exact ⟨hstores r hlookup, hlookup⟩

include h in
theorem resumesReleased_iff (i : ι) :
    ResumesReleased clock rid agent pool i ↔
      (i = agent → pollsResponse clock rid agent pool = false) := by
  by_cases hi : i = agent
  · subst hi
    simp only [forall_const]
    have hnext := h.waiting.next
    cases ht : pool.threads i with
    | pure | raise =>
      have hstep : pool.step (exec clock) i = pool := by rw [Pool.step, ht]
      simp only [ResumesReleased, hstep, pollsResponse, ht, iff_true]
      exact fun hnot hresumed => absurd hresumed hnot
    | op o k =>
      rw [ht] at hnext
      have hnot : ¬ HasResumed i pool := by
        rw [HasResumed, ht]
        intro he
        cases he
      have hresumed : HasResumed i (pool.step (exec clock) i) ↔
          (k (exec clock o pool.state).1).returned = some (some ()) := by
        rw [HasResumed, Pool.step_of_op _ ht]
        simp only [Function.update_self]
      have hstate : (pool.step (exec clock) i).state = (exec clock o pool.state).2 := by
        rw [Pool.step_of_op _ ht]
      unfold ResumesReleased
      rw [hresumed, hstate]
      simp only [hnot]
      cases o with
      | time | auditAppend => simp [pollsResponse, ht, (hnext _).2]
      | updateLocked | listLocked | createLocked => exact hnext.elim
      | getLocked requestId =>
        obtain ⟨rfl, hpoll⟩ := hnext
        simp only [pollsResponse, ht, (hpoll _).2]
        cases hx : (exec clock (.getLocked requestId) pool.state).1 with
        | error e => simp
        | ok r =>
          obtain ⟨hsound, hlookup⟩ := h.poll hx
          rw [hlookup, ← Bool.not_eq_true, Bool.and_eq_true, decide_eq_true_eq,
            ← released_of_letsResume_iff hsound]
          simp
  · simp only [hi, false_imp_iff, iff_true]
    intro hnot hresumed
    rw [HasResumed, Pool.step_threads_of_ne _ _ (Ne.symm hi)] at hresumed
    exact absurd hresumed hnot

/-- In every interleaving of the waiting agent with Control Client actions and other
calls on a created request, the agent resumes from a released request only, exactly when
no poll is given a response of the user on the way. -/
theorem resumes_released_iff (clock : ℕ → ℚ) (py : Interpreter) (rid : String)
    (args : RequestStore.CreateArgs) (w : World) (request : ControlRequest)
    (hcreate : ((RequestStore.create rid args).run (exec clock) w).1 = .ok request)
    (callers : ι → Caller) (hcallers : ∀ i, (callers i).On rid) (agent : ι) (timeoutSeconds : ℚ)
    (fuel : ℕ) (hagent : callers agent = .waiter timeoutSeconds fuel) (schedule : List ι) :
    let pool := start py rid callers ((create rid args).run (exec clock) w).2
    Pool.Throughout (exec clock) (ResumesReleased clock rid agent) pool schedule ↔
      Pool.Throughout (exec clock)
        (fun pool i => i = agent → pollsResponse clock rid agent pool = false) pool schedule := by
  intro pool
  have hwaiting : Waiting rid (pool.threads agent) := by
    simp only [pool, start, hagent]
    exact .start timeoutSeconds fuel
  have hkeeps : TakeoverKeeps clock rid agent pool :=
    ⟨⟨fun i => (callers i).prog_returns py (hcallers i) Memory.empty,
      stores_sound_of_create hcreate, fun i => remembers_empty _⟩, hwaiting⟩
  exact Along.congr (TakeoverKeeps clock rid agent) (fun _ i h => h.step i)
    (fun _ i h => resumesReleased_iff h i) hkeeps schedule

end Pools

def takeoverArgs : RequestStore.CreateArgs where
  requestType := "human_takeover"
  origin := "https://example.com"
  topLevelUrl := "https://example.com/login"
  actionSummary := "captcha requires user takeover"

def phoneSession : Auth.ControlSession := ⟨"sess", "dev", "", "", 1000, false, 0, none⟩

def phone : Server.Handler := ⟨true, some phoneSession, .ok ()⟩

/-- The world in which the takeover request has been created at time `0`. -/
def takeoverWorld : World :=
  ((RequestStore.create "req" takeoverArgs).run (exec fun _ => 0) .empty).2

/-- The user releases the browser between two polls. -/
theorem resumes_released_iff_release :
    let pool := start .ascii "req"
      (fun i : Bool => if i then .waiter 10 3 else .action phone .release) takeoverWorld
    let schedule := replicate 3 true ++ replicate 6 false ++ replicate 2 true
    HasResumed true (pool.run (exec fun _ => 0) schedule) ∧
      Pool.Throughout (exec fun _ => 0) (ResumesReleased (fun _ => 0) "req" true) pool schedule :=
  ⟨by decide +kernel,
    (resumes_released_iff (fun _ => 0) .ascii "req" takeoverArgs .empty _ rfl _
      (fun i => by cases i <;> trivial) true 10 3 rfl _).2 (by decide +kernel)⟩

/-- The user submits an envelope on the takeover request: the server accepts it, and the
agent resumes while the user is in control. -/
theorem resumes_on_submit :
    let envelope : Dict :=
      [("request_id", .str "req"), ("origin", .str "https://example.com"),
        ("request_type", .str "human_takeover"), ("device_id", .str "dev"),
        ("expires_at", .int 300)]
    let pool := start .ascii "req"
      (fun i : Bool => if i then .waiter 10 3 else .action phone (.submit envelope)) takeoverWorld
    let schedule := replicate 3 true ++ replicate 6 false ++ replicate 2 true
    let final := pool.run (exec fun _ => 0) schedule
    HasResumed true final ∧
      (final.state.requests.lookup "req").map (fun r => (r.status, r.controlOwner)) =
        some (.fulfilled, .user) ∧
      ¬ Pool.Throughout (exec fun _ => 0)
        (ResumesReleased (fun _ => 0) "req" true) pool schedule := by
  decide +kernel

end OmniDoer.ChallengeGuard
