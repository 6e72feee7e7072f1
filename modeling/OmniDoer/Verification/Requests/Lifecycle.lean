import OmniDoer.Model.Requests

/-! # The life of a control request

Whatever a method of the store writes is one of nine transitions applied to the copy
it read. This is checked once for every method, against arbitrary answers of the
state file, so that it holds for a method that runs alone and for one that is
interleaved with others. -/

namespace OmniDoer.Requests

open Py Effects Tables RequestStore

/-- What a method does to its copy of a request before it writes the copy back. -/
inductive Transition where
  | expire
  | submit (envelope : Dict)
  | approve
  | deny
  | cancel (reason : Option String)
  | completeChallenge
  | release
  | recordFrame (frameId : String) (capturedAt : Double) (width height : Option ℤ)
  | consume

namespace Transition

def apply : Transition → ControlRequest → ControlRequest
  | .expire, r => { r with status := .expired }
  | .submit envelope, r =>
    { r with
      responseCiphertext := some envelope, status := .fulfilled, used := r.oneTimeUse
      completedByUser := true }
  | .approve, r =>
    { r with
      approvalDecision := some .approved, status := .approved, used := false
      completedByUser := true }
  | .deny, r =>
    { r with
      approvalDecision := some .denied, status := .denied, used := r.oneTimeUse
      completedByUser := true }
  | .cancel reason, r =>
    { r with
      status := .cancelled, used := r.oneTimeUse, completedByUser := false
      structuredDetails := RequestStore.withCancelReason r.structuredDetails reason }
  | .completeChallenge, r =>
    { r with
      status := .challengeCompleted, completedByUser := true, bypassed := false
      used := r.oneTimeUse }
  | .release, r =>
    { r with
      status := .released, controlOwner := .agent, completedByUser := true, bypassed := false
      used := r.oneTimeUse }
  | .recordFrame frameId capturedAt width height, r =>
    { r with
      takeoverFrameId := some frameId, takeoverFrameCapturedAt := some capturedAt
      takeoverFrameViewportWidth := width, takeoverFrameViewportHeight := height }
  | .consume, r => { r with status := .consumed, used := true }

/-- The guards a transition has passed; `now` is the last reading of the clock. -/
def Enabled (now : Option ℚ) (r : ControlRequest) : Transition → Prop
  | .expire => ∃ t ∈ now, r.isExpired t = true
  | .submit _ => r.used = false ∧ r.responseCiphertext = none
  | .approve => r.used = false
  | .deny => r.used = false
  | .cancel _ => r.status ∉ completedRequestStatuses ∧ r.status ∉ abortedRequestStatuses
  | .completeChallenge => r.used = false ∨ r.status = .fulfilled
  | .release => r.used = false ∧ r.requestType.isTakeover = true
  | .recordFrame .. => r.used = false ∧ r.requestType.isTakeover = true
  | .consume => r.used = false ∧ r.status = .approved ∧ r.approvalDecision = some .approved

def recordsFrame : Transition → Bool
  | .recordFrame .. => true
  | _ => false

@[simp] theorem apply_requestId (t : Transition) (r : ControlRequest) :
    (t.apply r).requestId = r.requestId := by
  cases t <;> rfl

@[simp] theorem apply_expiresAt (t : Transition) (r : ControlRequest) :
    (t.apply r).expiresAt = r.expiresAt := by
  cases t <;> rfl

theorem apply_of_used {t : Transition} {now : Option ℚ} {r : ControlRequest}
    (ht : t.Enabled now r) (hone : r.oneTimeUse = true) (hused : r.used = true) :
    (t.apply r).used = true ∧ (t.apply r).status ≠ .consumed := by
  cases t with
  | expire => exact ⟨hused, by simp [apply]⟩
  | cancel | completeChallenge => exact ⟨hone, by simp [apply]⟩
  | submit | approve | deny | release | recordFrame | consume => simp [Enabled, hused] at ht

end Transition

/-- A request as `create` stores it. -/
structure ControlRequest.IsNew (r : ControlRequest) : Prop where
  oneTimeUse : r.oneTimeUse = true
  used : r.used = false
  status : r.status = .pending ∨ r.status = .userControl
  responseCiphertext : r.responseCiphertext = none
  approvalDecision : r.approvalDecision = none
  takeoverFrameId : r.takeoverFrameId = none

/-- What a caller remembers: the copy it read last, the clock reading it made last since
then, and the copies it wrote. -/
structure Memory where
  read : Option ControlRequest
  now : Option ℚ
  written : List ControlRequest

def Memory.empty : Memory := ⟨none, none, []⟩

def Memory.next (m : Memory) : (o : StoreOp) → o.Ans → Memory
  | .time, t => { m with now := some t }
  | .getLocked _, .ok r => { m with read := some r, now := none }
  | .updateLocked r, _ => { m with written := m.written ++ [r] }
  | _, _ => m

/-- A method on request `id` reads that request only and writes transitions of its copy.
Only `create` inserts, and it inserts a request that satisfies `new`. Frames are recorded
only if `frames`. -/
def lifecycle (id : String) (new : ControlRequest → Prop) (frames : Prop := True) :
    Prog.Contract StoreOp StoreOp.Ans Memory where
  guar m
    | .getLocked requestId => requestId = id
    | .updateLocked r =>
      ∃ r₀ t, m.read = some r₀ ∧ r₀.requestId = id ∧ Transition.Enabled m.now r₀ t ∧
        r = t.apply r₀ ∧ (t.recordsFrame = true → frames)
    | .createLocked r => r.requestId = id ∧ new r
    | _ => True
  rely
    | .getLocked requestId, .ok r => r.requestId = requestId
    | .updateLocked r, (r', _) => ∃ t, r' = r.touch t
    | _, _ => True
  next := Memory.next

namespace RequestStore

variable {id : String} {new : ControlRequest → Prop} {frames : Prop} {m : Memory}

theorem update_returns {r₀ : ControlRequest} (t : Transition)
    {post : Memory → ControlRequest → Prop} (hread : m.read = some r₀)
    (hid : r₀.requestId = id) (ht : t.Enabled m.now r₀)
    (hpost : ∀ u, post { m with written := m.written ++ [t.apply r₀] } ((t.apply r₀).touch u))
    (hframes : t.recordsFrame = true → frames := by nofun) :
    (update (t.apply r₀)).Returns (lifecycle id new frames) post m := by
  refine .op ⟨r₀, t, hread, hid, ht, rfl, hframes⟩ ?_
  rintro ⟨r', previous⟩ ⟨u, rfl⟩
  simp only [Prog.bind]
  split
  · exact .op trivial fun _ _ => .pure (hpost u)
  · exact .pure (hpost u)

/-- What `_ensure_actionable` has checked when it does not raise. -/
def Actionable (allowFulfilled : Bool) (r : ControlRequest) : Prop :=
  r.used = true → allowFulfilled = true ∧ r.status = .fulfilled

variable {r : ControlRequest}

theorem Actionable.used_eq_false (h : Actionable false r) : r.used = false := by
  by_contra hused
  exact absurd (h (by simpa using hused)).1 (by decide)

theorem ensureActionable_returns (hread : m.read = some r)
    (hid : r.requestId = id) (allowFulfilled : Bool) :
    (ensureActionable r allowFulfilled).Returns (lifecycle id new frames)
      (fun m' _ => m'.read = some r ∧ m'.written = m.written ∧ Actionable allowFulfilled r) m := by
  refine .op trivial fun now _ => ?_
  simp only [Prog.bind]
  split
  · rename_i hexp
    apply Prog.Returns.bind (q := fun _ _ => True)
    · exact update_returns .expire hread hid ⟨now, rfl, hexp⟩ fun _ => trivial
    · exact fun _ _ _ => .raise
  · split
    · exact .raise
    · rename_i hused
      refine .pure ⟨hread, rfl, fun hu => ?_⟩
      simpa [hu] using hused

theorem get_returns :
    (get id).Returns (lifecycle id new frames)
      (fun m' r => m'.read = some r ∧ m'.written = m.written ∧ r.requestId = id) m := by
  refine .op rfl fun x hx => .ofExcept ?_
  rintro r rfl
  exact ⟨rfl, rfl, hx⟩

/-- After a guarded read the copy is the last one read, and nothing was written. -/
structure ReadActionable (id : String) (allowFulfilled : Bool) (m m' : Memory)
    (r : ControlRequest) : Prop where
  read : m'.read = some r
  written : m'.written = m.written
  requestId : r.requestId = id
  actionable : Actionable allowFulfilled r

theorem getActionable_returns (allowFulfilled : Bool) :
    (getActionable id allowFulfilled).Returns (lifecycle id new frames)
      (ReadActionable id allowFulfilled m) m := by
  apply Prog.Returns.bind get_returns
  rintro m' r ⟨hread, hwritten, hid⟩
  apply Prog.Returns.bind (ensureActionable_returns hread hid allowFulfilled)
  rintro m'' _ ⟨hread', hwritten', hact⟩
  exact .pure ⟨hread', hwritten'.trans hwritten, hid, hact⟩

theorem getTakeover_returns :
    (getTakeover id).Returns (lifecycle id new frames)
      (fun m' r => ReadActionable id false m m' r ∧ r.requestType.isTakeover = true) m := by
  apply Prog.Returns.bind get_returns
  rintro m' r ⟨hread, hwritten, hid⟩
  split
  · rename_i htype
    apply Prog.Returns.bind (ensureActionable_returns hread hid false)
    rintro m'' _ ⟨hread', hwritten', hact⟩
    exact .pure ⟨⟨hread', hwritten'.trans hwritten, hid, hact⟩, htype⟩
  · exact .raise

/-- The only write of a method was the transition `t` of a request `id`. -/
def Wrote (id : String) (t : Transition) (m m' : Memory) : Prop :=
  ∃ r₀, r₀.requestId = id ∧ m'.written = m.written ++ [t.apply r₀]

theorem ReadActionable.update_returns {allowFulfilled : Bool} {m' : Memory}
    (h : ReadActionable id allowFulfilled m m' r) (t : Transition) (ht : t.Enabled m'.now r)
    (hframes : t.recordsFrame = true → frames := by nofun) :
    (update (t.apply r)).Returns (lifecycle id new frames) (fun m'' _ => Wrote id t m m'') m' :=
  RequestStore.update_returns t h.read h.requestId ht (fun _ => ⟨r, h.requestId, by rw [h.written]⟩)
    hframes

theorem submitCiphertext_returns (envelope : Dict) :
    (submitCiphertext id envelope).Returns (lifecycle id new frames)
      (fun m' _ => Wrote id (.submit envelope) m m') m := by
  apply Prog.Returns.bind (getActionable_returns false)
  intro m' r h
  split
  · exact .raise
  · rename_i hcipher
    exact h.update_returns (.submit envelope) ⟨h.actionable.used_eq_false, by simpa using hcipher⟩

theorem approve_returns :
    (approve id).Returns (lifecycle id new frames) (fun m' _ => Wrote id .approve m m') m := by
  apply Prog.Returns.bind (getActionable_returns false)
  intro m' r h
  exact h.update_returns .approve h.actionable.used_eq_false

theorem deny_returns :
    (deny id).Returns (lifecycle id new frames) (fun m' _ => Wrote id .deny m m') m := by
  apply Prog.Returns.bind (getActionable_returns false)
  intro m' r h
  exact h.update_returns .deny h.actionable.used_eq_false

theorem cancel_returns (reason : Option String) :
    (cancel id reason).Returns (lifecycle id new frames) (fun _ _ => True) m := by
  apply Prog.Returns.bind get_returns
  rintro m' r ⟨hread, _, hid⟩
  split
  · exact .pure trivial
  · rename_i hopen
    exact update_returns (.cancel reason) hread hid (by simpa [Transition.Enabled] using hopen)
      fun _ => trivial

theorem markChallengeCompleted_returns :
    (markChallengeCompleted id).Returns (lifecycle id new frames)
      (fun m' _ => Wrote id .completeChallenge m m') m := by
  apply Prog.Returns.bind (getActionable_returns true)
  intro m' r h
  apply h.update_returns .completeChallenge
  by_cases hused : r.used = true
  · exact .inr (h.actionable hused).2
  · exact .inl (by simpa using hused)

theorem releaseTakeover_returns :
    (releaseTakeover id).Returns (lifecycle id new frames)
      (fun m' _ => Wrote id .release m m') m := by
  apply Prog.Returns.bind getTakeover_returns
  rintro m' r ⟨h, htype⟩
  exact h.update_returns .release ⟨h.actionable.used_eq_false, htype⟩

theorem frameCapturedAt_returns (frame : Dict) (hread : m.read = some r) :
    (frameCapturedAt frame).Returns (lifecycle id new frames) (fun m' _ => m'.read = some r) m := by
  unfold frameCapturedAt
  split
  · split
    · exact .ofExcept fun _ _ => hread
    · exact .op trivial fun _ _ => .pure hread
  · exact .op trivial fun _ _ => .pure hread

theorem recordTakeoverFrame_returns (hframes : frames) (py : Interpreter) (frame : Dict) :
    (recordTakeoverFrame py id frame).Returns (lifecycle id new frames) (fun _ _ => True) m := by
  apply Prog.Returns.bind getTakeover_returns
  rintro m' r ⟨h, htype⟩
  apply Prog.Returns.bind (frameCapturedAt_returns frame h.read)
  intro m₁ capturedAt hread₁
  apply Prog.Returns.bind (q := fun m' _ => m'.read = some r) (.ofExcept fun _ _ => hread₁)
  intro m₂ viewport hread₂
  apply Prog.Returns.bind (q := fun m' _ => m'.read = some r) (.ofExcept fun _ _ => hread₂)
  intro m₃ width hread₃
  apply Prog.Returns.bind (q := fun m' _ => m'.read = some r) (.ofExcept fun _ _ => hread₃)
  intro m₄ height hread₄
  exact update_returns (.recordFrame _ capturedAt width height) hread₄ h.requestId
    ⟨h.actionable.used_eq_false, htype⟩ (fun _ => trivial) fun _ => hframes

theorem nowOrTime_returns (now : Option Double) :
    (nowOrTime now).Returns (lifecycle id new frames) (fun _ _ => True) m := by
  unfold nowOrTime
  split
  · split
    · exact .op trivial fun _ _ => .pure trivial
    · exact .pure trivial
  · exact .op trivial fun _ _ => .pure trivial

theorem validateTakeoverFrame_returns (frameId : Option String) (now : Option Double) :
    (validateTakeoverFrame id frameId now).Returns (lifecycle id new frames)
      (fun _ _ => True) m := by
  apply Prog.Returns.bind getTakeover_returns
  intro m' r _
  split
  · exact .pure trivial
  · split
    · exact .pure trivial
    · split
      · exact .raise
      · apply Prog.Returns.bind (nowOrTime_returns now)
        intro m'' now' _
        simp only
        split
        · exact .raise
        · exact .pure trivial

theorem consumeApproval_returns :
    (consumeApproval id).Returns (lifecycle id new frames)
      (fun m' _ => Wrote id .consume m m') m := by
  apply Prog.Returns.bind (getActionable_returns false)
  intro m' r h
  split
  · exact .raise
  · rename_i happroved
    simp only [not_or, not_not] at happroved
    exact h.update_returns .consume ⟨h.actionable.used_eq_false, happroved⟩

theorem newRequest_isNew (requestId : String) (requestType : RequestType) (args : CreateArgs)
    (expiresAt createdAt updatedAt : ℚ) :
    (newRequest requestId requestType args expiresAt createdAt updatedAt).IsNew where
  oneTimeUse := rfl
  used := rfl
  status := by
    by_cases htype : requestType.isTakeover = true
    · exact .inr (if_pos htype)
    · exact .inl (if_neg htype)
  responseCiphertext := rfl
  approvalDecision := rfl
  takeoverFrameId := rfl

theorem create_returns (hnew : ∀ r : ControlRequest, r.IsNew → new r) (args : CreateArgs) :
    (create id args).Returns (lifecycle id new frames) (fun _ _ => True) m := by
  unfold create
  split
  · exact .raise
  · refine .op trivial fun _ _ => .op trivial fun _ _ => .op trivial fun _ _ => ?_
    exact .op ⟨rfl, hnew _ (newRequest_isNew ..)⟩ fun _ _ => .op trivial fun _ _ => .pure trivial

theorem list_returns (includeExpired : Bool) :
    (list includeExpired).Returns (lifecycle id new frames) (fun _ _ => True) m := by
  refine .op trivial fun values _ => ?_
  split <;> exact .pure trivial

end RequestStore

/-- The request a call is about. -/
def StoreCall.target : StoreCall → Option String
  | .list _ => none
  | .create id _ | .get id | .submitCiphertext id _ | .approve id | .deny id | .cancel id _
  | .markChallengeCompleted id | .releaseTakeover id | .recordTakeoverFrame id _
  | .validateTakeoverFrame id _ _ | .consumeApproval id => some id

theorem StoreCall.exists_target (c : StoreCall) : ∃ id, ∀ t ∈ c.target, t = id := by
  cases c.target with
  | none => exact ⟨"", fun t ht => (nomatch ht)⟩
  | some id => exact ⟨id, fun t ht => (Option.some.inj ht).symm⟩

def StoreCall.isCreate : StoreCall → Bool
  | .create .. => true
  | _ => false

theorem StoreCall.prog_returns (py : Interpreter) (c : StoreCall) {id : String}
    (hid : ∀ t ∈ c.target, t = id) {new : ControlRequest → Prop}
    (hnew : c.isCreate = true → ∀ r : ControlRequest, r.IsNew → new r) (m : Memory) {frames : Prop}
    (hframes : ∀ frame, c = .recordTakeoverFrame id frame → frames := by intros; trivial) :
    (c.prog py).Returns (lifecycle id new frames) (fun _ _ => True) m := by
  cases c with
  | list b => exact list_returns b
  | create t args =>
    obtain rfl := hid t rfl
    exact .map (create_returns (hnew rfl) args) fun _ _ _ => trivial
  | get t =>
    obtain rfl := hid t rfl
    exact .map get_returns fun _ _ _ => trivial
  | submitCiphertext t envelope =>
    obtain rfl := hid t rfl
    exact .map (submitCiphertext_returns envelope) fun _ _ _ => trivial
  | approve t =>
    obtain rfl := hid t rfl
    exact .map approve_returns fun _ _ _ => trivial
  | deny t =>
    obtain rfl := hid t rfl
    exact .map deny_returns fun _ _ _ => trivial
  | cancel t reason =>
    obtain rfl := hid t rfl
    exact .map (cancel_returns reason) fun _ _ _ => trivial
  | markChallengeCompleted t =>
    obtain rfl := hid t rfl
    exact .map markChallengeCompleted_returns fun _ _ _ => trivial
  | releaseTakeover t =>
    obtain rfl := hid t rfl
    exact .map releaseTakeover_returns fun _ _ _ => trivial
  | recordTakeoverFrame t frame =>
    obtain rfl := hid t rfl
    exact .map (recordTakeoverFrame_returns (hframes frame rfl) py frame) fun _ _ _ => trivial
  | validateTakeoverFrame t frameId now =>
    obtain rfl := hid t rfl
    exact .map (validateTakeoverFrame_returns frameId now) fun _ _ _ => trivial
  | consumeApproval t =>
    obtain rfl := hid t rfl
    exact .map consumeApproval_returns fun _ _ _ => trivial

end OmniDoer.Requests
