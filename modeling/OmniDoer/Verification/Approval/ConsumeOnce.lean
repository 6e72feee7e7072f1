import OmniDoer.Model.Approval
import OmniDoer.Verification.Requests.Semantics

/-! # Consuming an approval once

Every method reads a copy, checks the copy and writes it back in a second critical
section. Two callers that both read before either writes pass the same checks. What
remains true is stated for the schedules in which no write is based on an outdated
`used` flag. -/

namespace OmniDoer.Approval

open Py Effects Tables Requests List RequestStore

/-- The concurrent callers of the approval gate on one request. -/
inductive ApprovalCall where
  | verify (review : Review)
  | consume
  | approve
  | deny
  | cancel (reason : Option String)

namespace ApprovalCall

def prog (py : Interpreter) (sha256 : ByteArray → ByteArray) (rid : String) :
    ApprovalCall → StoreProg ControlRequest
  | .verify review => verifyApprovalScope py sha256 rid review true
  | .consume => RequestStore.consumeApproval rid
  | .approve => RequestStore.approve rid
  | .deny => RequestStore.deny rid
  | .cancel reason => RequestStore.cancel rid reason

/-- The calls that end in `consume_approval`. -/
def consumes : ApprovalCall → Bool
  | .verify _ => true
  | .consume => true
  | _ => false

end ApprovalCall

section Callers

variable {py : Interpreter} {sha256 : ByteArray → ByteArray} {rid : String}
  {new : ControlRequest → Prop} {m : Memory}

theorem verifyApprovalScope_returns (review : Review) :
    (verifyApprovalScope py sha256 rid review true).Returns (lifecycle rid new)
      (fun m' _ => RequestStore.Wrote rid .consume m m') m := by
  apply Prog.Returns.bind get_returns
  rintro m' r ⟨_, hwritten, _⟩
  split
  · exact .raise
  · split
    · exact .raise
    · apply Prog.Returns.bind (q := fun m'' _ => m''.written = m.written)
        (.ofExcept fun _ _ => hwritten)
      intro m'' _ hwritten'
      apply Prog.Returns.mono consumeApproval_returns
      rintro m₃ _ ⟨r₀, hid, hr₀⟩
      exact ⟨r₀, hid, by rw [hr₀, hwritten']⟩

def SuccessWrites (rid : String) (c : ApprovalCall) (m' : Memory) : Prop :=
  (c.consumes = true → RequestStore.Wrote rid .consume Memory.empty m') ∧
    (c = .deny → RequestStore.Wrote rid .deny Memory.empty m')

theorem ApprovalCall.prog_returns (c : ApprovalCall) :
    (c.prog py sha256 rid).Returns (lifecycle rid new) (fun m' _ => SuccessWrites rid c m')
      Memory.empty := by
  cases c with
  | verify review =>
    exact (verifyApprovalScope_returns review).mono fun _ _ h => ⟨fun _ => h, by simp⟩
  | consume =>
    exact consumeApproval_returns.mono fun _ _ h => ⟨fun _ => h, by simp⟩
  | approve =>
    exact approve_returns.mono fun _ _ _ => ⟨by simp [consumes], by simp⟩
  | deny =>
    exact deny_returns.mono fun _ _ h => ⟨by simp [consumes], fun _ => h⟩
  | cancel reason =>
    exact (cancel_returns reason).mono fun _ _ _ => ⟨by simp [consumes], by simp⟩

end Callers

section UsedFlag

variable {clock : ℕ → ℚ} {rid : String} {w : World}

/-- The request is stored with its `used` flag set. -/
def StoredUsed (rid : String) (w : World) : Prop :=
  ∃ r, w.requests.lookup rid = some r ∧ r.used = true

theorem storedUsed_getLocked (h : StoredUsed rid w) (requestId : String) :
    StoredUsed rid (exec clock (.getLocked requestId) w).2 := by
  obtain ⟨r, hr, hused⟩ := h
  simp only [exec]
  split
  · exact ⟨r, hr, hused⟩
  · rename_i r' hr'
    have hkey := expireIfNeeded_requestId clock r' w.tick
    by_cases hid : rid = r'.requestId
    · have hsame : r' = r := by
        rw [Table.key_of_lookup hr'] at hid
        exact Option.some.inj (hr'.symm.trans (hid ▸ hr))
      refine ⟨(expireIfNeeded clock r' w.tick).1, ?_, ?_⟩
      · rw [Table.lookup_insert, if_pos (hid.trans hkey.symm)]
      · rw [expireIfNeeded_used, hsame, hused]
    · refine ⟨r, ?_, hused⟩
      rw [Table.lookup_insert, if_neg (fun he => hid (he.trans hkey)), hr]

theorem storedUsed_listLocked (h : StoredUsed rid w) :
    StoredUsed rid (exec clock .listLocked w).2 := by
  obtain ⟨r, hr, hused⟩ := h
  obtain ⟨u, _, he, _⟩ := w.requests.lookup_mapAccum (R := fun _ _ => True) (expireIfNeeded clock)
    (expireIfNeeded_requestId clock) (fun _ => trivial) (fun _ _ _ _ => trivial) w.tick rid
  refine ⟨(expireIfNeeded clock r u).1, ?_, by rw [expireIfNeeded_used, hused]⟩
  rw [hr] at he
  exact he

end UsedFlag

section Schedules

variable {ι : Type} [DecidableEq ι]

/-- The callers before their first step. -/
def startPool (py : Interpreter) (sha256 : ByteArray → ByteArray) (rid : String) (w : World)
    (calls : ι → ApprovalCall) : StorePool ι ControlRequest where
  state := w
  threads := fun i => (calls i).prog py sha256 rid
  log := []

/-- If caller `i` is about to write, the stored `used` flag is still the one it read. -/
def Current (rid : String) (pool : StorePool ι ControlRequest) (i : ι) : Prop :=
  match pool.threads i with
  | .op (.updateLocked _) _ =>
    ∀ stored ∈ pool.state.requests.lookup rid, ∀ read ∈ (memoryOf pool i).read,
      stored.used = read.used
  | _ => True

instance (rid : String) (pool : StorePool ι ControlRequest) (i : ι) :
    Decidable (Current rid pool i) := by
  unfold Current
  split <;> infer_instance

def Settles (e : ι × (o : StoreOp) × o.Ans) : Prop :=
  ∃ r, e.2.1 = .updateLocked r ∧ (r.status = .consumed ∨ r.status = .denied)

def WritesConsumed (e : ι × (o : StoreOp) × o.Ans) : Prop :=
  ∃ r, e.2.1 = .updateLocked r ∧ r.status = .consumed

/-- After a final decision the stored request is used, and nothing consumes it. -/
structure SettledOnce (clock : ℕ → ℚ) (rid : String) (calls : ι → ApprovalCall)
    (pool : StorePool ι ControlRequest) : Prop where
  keeps : PoolKeeps clock (fun _ r => r.Sound) rid (fun i m _ => SuccessWrites rid (calls i) m) pool
  stored : ∀ e ∈ pool.log, Settles e → StoredUsed rid pool.state
  ordered : pool.log.Pairwise fun e e' => Settles e → ¬ WritesConsumed e'

variable {clock : ℕ → ℚ} {rid : String} {calls : ι → ApprovalCall}

variable {pool : StorePool ι ControlRequest}

variable (h : SettledOnce clock rid calls pool)

include h in
theorem SettledOnce.write
    {i : ι} {r : ControlRequest} {k : (StoreOp.updateLocked r).Ans → StoreProg ControlRequest}
    (hcurrent : Current rid pool i) (ht : pool.threads i = .op (.updateLocked r) k) :
    (∀ e ∈ pool.log, Settles e → r.used = true ∧ r.status ≠ .consumed) ∧ r.requestId = rid := by
  have hguar := h.keeps.honest i
  rw [ht] at hguar
  obtain ⟨r₀, t, hread, hid, hen, rfl, -⟩ := hguar.1
  refine ⟨fun e he hsettles => ?_, by simpa using hid⟩
  obtain ⟨stored, hstored, hused⟩ := h.stored e he hsettles
  have hone : r₀.oneTimeUse = true := ((h.keeps.remembers i).1 r₀ hread hid).oneTimeUse
  rw [Current, ht] at hcurrent
  have hflag : stored.used = r₀.used := hcurrent stored hstored r₀ hread
  exact Transition.apply_of_used hen hone (hflag ▸ hused)

include h in
theorem SettledOnce.step {i : ι} (hcurrent : Current rid pool i) :
    SettledOnce clock rid calls (pool.step (exec clock) i) := by
  have hkeeps := h.keeps.step sound_recordInvariant i
  suffices hlog : (∀ e ∈ (pool.step (exec clock) i).log,
      Settles e → StoredUsed rid (pool.step (exec clock) i).state) ∧
      (pool.step (exec clock) i).log.Pairwise fun e e' => Settles e → ¬ WritesConsumed e' from
    ⟨hkeeps, hlog.1, hlog.2⟩
  rcases pool.step_cases (exec clock) i with he | ⟨o, k, ht, he⟩
  · rw [he]
    exact ⟨h.stored, h.ordered⟩
  · by_cases ho : ∃ r, o = .updateLocked r
    · obtain ⟨r, rfl⟩ := ho
      obtain ⟨hafter, hid⟩ := h.write hcurrent ht
      have hlookup : (pool.step (exec clock) i).state.requests.lookup rid =
          some (r.touch (clock pool.state.tick)) := by
        rw [he, ← hid]
        exact Table.lookup_insert_self _ _
      have hsound := hkeeps.stores _ hlookup
      rw [he] at hlookup ⊢
      refine ⟨fun e hmem hsettles => ⟨_, hlookup, ?_⟩, ?_⟩
      · rcases mem_append.1 hmem with hmem | hmem
        · exact (hafter e hmem hsettles).1
        · obtain rfl := mem_singleton.1 hmem
          obtain ⟨r', hr', hstatus⟩ := hsettles
          cases hr'
          apply hsound.used
          rcases hstatus with hs | hs <;> simp [hs]
      · rw [pairwise_append]
        refine ⟨h.ordered, pairwise_singleton _ _, ?_⟩
        rintro e hmem e' hmem' hsettles ⟨r', hr', hconsumed⟩
        obtain rfl := mem_singleton.1 hmem'
        cases hr'
        exact (hafter e hmem hsettles).2 hconsumed
    · have hguar := h.keeps.honest i
      rw [ht] at hguar
      rw [he]
      refine ⟨fun e hmem hsettles => ?_, ?_⟩
      · rcases mem_append.1 hmem with hmem | hmem
        · have h := h.stored e hmem hsettles
          cases o with
          | time | auditAppend => exact h
          | getLocked requestId => exact storedUsed_getLocked h requestId
          | updateLocked r => exact absurd rfl ((fun r hr => ho ⟨r, hr⟩) r)
          | listLocked => exact storedUsed_listLocked h
          | createLocked r => exact hguar.1.2.elim
        · obtain rfl := mem_singleton.1 hmem
          obtain ⟨r, hr, _⟩ := hsettles
          exact absurd ⟨r, hr⟩ ho
      · rw [pairwise_append]
        refine ⟨h.ordered, pairwise_singleton _ _, ?_⟩
        rintro e hmem e' hmem' _ ⟨r, hr, _⟩
        obtain rfl := mem_singleton.1 hmem'
        exact ho ⟨r, hr⟩

theorem settledOnce_start {py : Interpreter} {sha256 : ByteArray → ByteArray} {w : World}
    (hw : Stores (fun _ r => r.Sound) rid w) :
    SettledOnce clock rid calls (startPool py sha256 rid w calls) where
  keeps :=
    { honest := fun i => (calls i).prog_returns
      stores := hw
      remembers := fun _ => remembers_empty _ }
  stored := fun _ he => (nomatch he)
  ordered := Pairwise.nil

/-- The call of caller `i` has returned. -/
def Succeeded (pool : StorePool ι ControlRequest) (i : ι) : Prop :=
  (pool.threads i).returned.isSome = true

include h in
theorem SettledOnce.update_of_succeeded {i : ι} (hi : Succeeded pool i) {t : Transition}
    (ht : SuccessWrites rid (calls i) (memoryOf pool i) →
      RequestStore.Wrote rid t Memory.empty (memoryOf pool i)) :
    ∃ r₀, ∀ r, (∃ x, (i, ⟨.updateLocked r, x⟩) ∈ pool.log) ↔ r = t.apply r₀ := by
  obtain ⟨a, ha⟩ := Option.isSome_iff_exists.1 hi
  obtain ⟨r₀, _, hwritten⟩ := ht ((h.keeps.honest i).post_of_returned ha)
  refine ⟨r₀, fun r => ?_⟩
  rw [← mem_written_iff, hwritten]
  simp [Memory.empty]

/-- The updates of `i` and `j` appear in the log in this order. -/
def UpdatesBefore (pool : StorePool ι ControlRequest) (i j : ι) : Prop :=
  ∃ before between after r r' x x', pool.log =
    before ++ (i, ⟨.updateLocked r, x⟩) :: between ++ (j, ⟨.updateLocked r', x'⟩) :: after

include h in
theorem SettledOnce.consume_unique {i j : ι} (hi : (calls i).consumes = true)
    (hj : (calls j).consumes = true) (hsi : Succeeded pool i) (hsj : Succeeded pool j) : i = j := by
  by_contra hne
  obtain ⟨ri, hri⟩ := h.update_of_succeeded hsi (t := .consume) fun hw => hw.1 hi
  obtain ⟨rj, hrj⟩ := h.update_of_succeeded hsj (t := .consume) fun hw => hw.1 hj
  obtain ⟨xi, hmemi⟩ := (hri _).2 rfl
  obtain ⟨xj, hmemj⟩ := (hrj _).2 rfl
  have hconsume (k : ι) (r : ControlRequest)
      (x : (StoreOp.updateLocked (Transition.consume.apply r)).Ans) :
      WritesConsumed (k, ⟨.updateLocked (Transition.consume.apply r), x⟩) := ⟨_, rfl, rfl⟩
  have hsettle (k : ι) (r : ControlRequest)
      (x : (StoreOp.updateLocked (Transition.consume.apply r)).Ans) :
      Settles (k, ⟨.updateLocked (Transition.consume.apply r), x⟩) := ⟨_, rfl, .inl rfl⟩
  -- one of the two updates comes first
  obtain ⟨before, after, hlog⟩ := append_of_mem hmemi
  have hordered := h.ordered
  rw [hlog, pairwise_append, pairwise_cons] at hordered
  rw [hlog, mem_append, mem_cons] at hmemj
  rcases hmemj with hmemj | hmemj | hmemj
  · exact hordered.2.2 _ hmemj _ mem_cons_self (hsettle j rj xj) (hconsume i ri xi)
  · exact hne (congrArg Prod.fst hmemj).symm
  · exact hordered.2.1.1 _ hmemj (hsettle i ri xi) (hconsume j rj xj)

/-- In a schedule whose writes are all based on the current flag, one call at most
consumes the approval, and none does after a denial. -/
theorem consume_at_most_once (clock : ℕ → ℚ) (py : Interpreter) (sha256 : ByteArray → ByteArray)
    (rid : String) (args : RequestStore.CreateArgs) (w₀ : World) (request : ControlRequest)
    (hcreate : ((RequestStore.create rid args).run (exec clock) w₀).1 = .ok request)
    (earlier : List StoreCall) (hearlier : NotRecreated rid earlier)
    (calls : ι → ApprovalCall) (schedule : List ι) (start : StorePool ι ControlRequest)
    (hstart : start = startPool py sha256 rid (runCalls clock py
      ((RequestStore.create rid args).run (exec clock) w₀).2 earlier) calls)
    (hcurrent : start.Throughout (exec clock) (Current rid) schedule) :
    (∀ i j, (calls i).consumes = true → (calls j).consumes = true →
      Succeeded (start.run (exec clock) schedule) i →
      Succeeded (start.run (exec clock) schedule) j → i = j) ∧
    ∀ i j, (calls i).consumes = true → calls j = .deny →
      Succeeded (start.run (exec clock) schedule) i →
      Succeeded (start.run (exec clock) schedule) j →
      ¬ UpdatesBefore (start.run (exec clock) schedule) j i := by
  have hsound : Stores (fun _ r => r.Sound) rid
      ((create rid args).run (exec clock) w₀).2 := stores_sound_of_create hcreate
  have hinit : SettledOnce clock rid calls start :=
    hstart ▸ settledOnce_start (runCalls_stores sound_recordInvariant py hearlier hsound)
  have hfinal : SettledOnce clock rid calls (start.run (exec clock) schedule) :=
    Along.invariant (SettledOnce clock rid calls) (fun _ _ h hc => h.step hc) hinit hcurrent
  refine ⟨fun i j hi hj => hfinal.consume_unique hi hj, fun i j hi hj => ?_⟩
  intro hsi hsj
  rintro ⟨before, between, after, r, r', x, x', hlog⟩
  obtain ⟨ri, hri⟩ := hfinal.update_of_succeeded hsi (t := .consume) fun hw => hw.1 hi
  obtain ⟨rj, hrj⟩ := hfinal.update_of_succeeded hsj (t := .deny) fun hw => hw.2 hj
  obtain rfl := (hrj r).1 ⟨x, by simp [hlog]⟩
  obtain rfl := (hri r').1 ⟨x', by simp [hlog]⟩
  have hordered := hfinal.ordered
  rw [hlog, pairwise_append] at hordered
  exact hordered.2.2 _ (mem_append_right _ mem_cons_self) _ mem_cons_self
    ⟨_, rfl, .inr rfl⟩ ⟨_, rfl, rfl⟩

end Schedules

/-- A payment that was created and approved, and two callers of it. -/
def approvedPool (calls : Bool → ApprovalCall) : StorePool Bool ControlRequest :=
  startPool .ascii id "req_1" (runCalls (fun n => n) .ascii
    ((RequestStore.create "req_1" (payment 300)).run (exec fun n => n) .empty).2
    [.approve "req_1"]) calls

/-- One caller after the other. -/
theorem consume_at_most_once_in_turn :
    ¬ (Succeeded ((approvedPool fun _ => .consume).run (exec fun n => n)
        [false, false, false, false, true, true, true, true]) false ∧
      Succeeded ((approvedPool fun _ => .consume).run (exec fun n => n)
        [false, false, false, false, true, true, true, true]) true) := by
  obtain ⟨request, hrequest⟩ := Except.exists_eq_ok
    (x := ((create "req_1" (payment 300)).run (exec fun n => n) .empty).1)
    (by decide +kernel)
  have hcalls : NotRecreated "req_1" [.approve "req_1"] := by
    intro c hc hcreate
    rw [mem_singleton.1 hc] at hcreate
    cases hcreate
  rintro ⟨hfirst, hsecond⟩
  have honce := consume_at_most_once (fun n => n) .ascii id "req_1" (payment 300) .empty request
    hrequest [.approve "req_1"] hcalls (fun _ : Bool => .consume)
    [false, false, false, false, true, true, true, true] _ rfl (by decide +kernel)
  exact absurd (honce.1 false true rfl rfl hfirst hsecond) (by decide)

/-- Both callers read before either writes: the approval is consumed twice, and it is
consumed after a denial. -/
theorem consume_race :
    (Succeeded ((approvedPool fun _ => .consume).run (exec fun n => n)
        [false, false, true, true, false, false, true, true]) false ∧
      Succeeded ((approvedPool fun _ => .consume).run (exec fun n => n)
        [false, false, true, true, false, false, true, true]) true) ∧
    (Succeeded ((approvedPool fun b => if b then .deny else .consume).run (exec fun n => n)
        [false, false, true, true, true, true, false, false]) false ∧
      Succeeded ((approvedPool fun b => if b then .deny else .consume).run (exec fun n => n)
        [false, false, true, true, true, true, false, false]) true ∧
      (((approvedPool fun b => if b then .deny else .consume).run (exec fun n => n)
        [false, false, true, true, true, true, false, false]).state.requests.lookup "req_1").map
          ControlRequest.status = some .consumed) := by
  unfold Succeeded
  decide +kernel

end OmniDoer.Approval
