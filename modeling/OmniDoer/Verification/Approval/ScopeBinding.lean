import OmniDoer.Library.PyDict
import OmniDoer.Library.PyJsonInjective
import OmniDoer.Model.Approval
import OmniDoer.Verification.Requests.Semantics

/-! # Approvals are bound to what was reviewed -/

namespace OmniDoer.Approval

open Py Effects Requests Dict

mutual

theorem normalizeValue_canonical (py : Interpreter) (v : Json) :
    (normalizeValue py v).Canonical := by
  cases v with
  | null | bool | int | float | str => exact .str _
  | arr items => exact .arr (normalizeItems_canonical py items)
  | obj members =>
    refine .obj (pairwise_sortKeys _) fun m hm => ?_
    exact normalizeMembers_canonical py members m ((sortKeys_perm _).mem_iff.1 hm)

theorem normalizeItems_canonical (py : Interpreter) (items : List Json) :
    ∀ v ∈ normalizeItems py items, v.Canonical := by
  cases items with
  | nil => exact fun v hv => (nomatch hv)
  | cons v rest =>
    intro u hu
    rcases List.mem_cons.1 hu with rfl | hu
    · exact normalizeValue_canonical py v
    · exact normalizeItems_canonical py rest u hu

theorem normalizeMembers_canonical (py : Interpreter) (members : Dict) :
    ∀ m ∈ normalizeMembers py members, m.2.Canonical := by
  cases members with
  | nil => exact fun m hm => (nomatch hm)
  | cons m rest =>
    obtain ⟨key, v⟩ := m
    intro u hu
    rcases List.mem_cons.1 hu with rfl | hu
    · exact normalizeValue_canonical py v
    · exact normalizeMembers_canonical py rest u hu

end

def baseScope (py : Interpreter) (review : Review) : Dict :=
  [("origin", normalizeValue py (.str review.origin)),
    ("top_level_url", normalizeValue py (.str review.topLevelUrl)),
    ("action_summary", normalizeValue py (.str review.actionSummary))]

def addField (py : Interpreter) (details : Dict) (scope : Dict) (key : String) : Dict :=
  match Dict.get? details key with
  | some v => Dict.set scope key (normalizeValue py v)
  | none => scope

variable (review : Review)

theorem approvalScope_eq (py : Interpreter) :
    approvalScope py review =
      approvalScopeFields.foldl (addField py review.structuredDetails) (baseScope py review) := rfl

theorem get?_addField (py : Interpreter) (details scope : Dict) (key k : String) :
    Dict.get? (addField py details scope key) k =
      if k = key then ((Dict.get? details k).map (normalizeValue py)).or (Dict.get? scope k)
      else Dict.get? scope k := by
  unfold addField
  by_cases hk : k = key
  · subst k
    cases get? details key with
    | none => simp
    | some v => simp [get?_set]
  · cases get? details key with
    | none => simp [hk]
    | some v => simp [get?_set, hk]

theorem get?_foldl_addField (py : Interpreter) (details : Dict) (fields : List String)
    (scope : Dict) (k : String) :
    Dict.get? (fields.foldl (addField py details) scope) k =
      if k ∈ fields then ((Dict.get? details k).map (normalizeValue py)).or (Dict.get? scope k)
      else Dict.get? scope k := by
  induction fields generalizing scope with
  | nil => simp
  | cons key rest ih =>
    rw [List.foldl_cons, ih, get?_addField]
    by_cases hk : k = key
    · subst k
      cases get? details key <;> simp
    · simp [hk]

/-- A scope has distinct keys and canonical values. -/
structure IsScope (scope : Dict) : Prop where
  nodup : (scope.map Prod.fst).Nodup
  canonical : ∀ m ∈ scope, m.2.Canonical

theorem approvalScope_isScope (py : Interpreter) :
    IsScope (approvalScope py review) := by
  have hbase : IsScope (baseScope py review) := by
    refine ⟨by simp [baseScope], ?_⟩
    intro m hm
    simp only [baseScope, List.mem_cons, List.not_mem_nil, or_false] at hm
    rcases hm with rfl | rfl | rfl <;> exact normalizeValue_canonical py _
  rw [approvalScope_eq]
  generalize baseScope py review = scope at hbase
  generalize approvalScopeFields = fields
  induction fields generalizing scope with
  | nil => exact hbase
  | cons key rest ih =>
    apply ih
    unfold addField
    split
    · exact ⟨nodup_set hbase.nodup _ _,
        forall_mem_set hbase.canonical (normalizeValue_canonical py _)⟩
    · exact hbase

section Fingerprints

variable {py : Interpreter} {sha256 : ByteArray → ByteArray}

/-- Two reviews agree on everything the user was shown, up to normalisation. -/
structure SameReview (py : Interpreter) (review review' : Review) : Prop where
  topLevelUrl : strip review.topLevelUrl = strip review'.topLevelUrl
  actionSummary : strip review.actionSummary = strip review'.actionSummary
  details : ∀ key ∈ approvalScopeFields, key ≠ "origin" →
    (Dict.get? review.structuredDetails key).map (normalizeValue py) =
      (Dict.get? review'.structuredDetails key).map (normalizeValue py)

theorem sameReview_of_fingerprint_eq (hsha : Function.Injective sha256) {review review' : Review}
    (h : approvalFingerprint py sha256 review = approvalFingerprint py sha256 review') :
    SameReview py review review' := by
  have hscope := approvalScope_isScope review py
  have hperm := dumps_obj_perm py hscope.canonical (approvalScope_isScope review' py).canonical
    (hexDigest_injective hsha h)
  have hget (k : String) := get?_perm hscope.nodup hperm k
  simp only [approvalScope_eq, get?_foldl_addField] at hget
  refine ⟨?_, ?_, ?_⟩
  · have hurl := hget "top_level_url"
    rw [if_neg (by decide), if_neg (by decide)] at hurl
    simpa [baseScope, get?_cons, normalizeValue, Json.toStr] using hurl
  · have hsummary := hget "action_summary"
    rw [if_neg (by decide), if_neg (by decide)] at hsummary
    simpa [baseScope, get?_cons, normalizeValue, Json.toStr] using hsummary
  · intro key hkey horigin
    -- a scope field other than the origin is absent from the base
    have hbase (r : Review) : get? (baseScope py r) key = none := by
      have hurl : key ≠ "top_level_url" := fun he => absurd hkey (he ▸ by decide)
      have hsummary : key ≠ "action_summary" := fun he => absurd hkey (he ▸ by decide)
      simp [baseScope, get?_cons, horigin, hurl, hsummary]
    have hfield := hget key
    rwa [if_pos hkey, if_pos hkey, hbase, hbase, Option.or_none, Option.or_none] at hfield

end Fingerprints

section Gate

variable {clock : ℕ → ℚ} {py : Interpreter} {sha256 : ByteArray → ByteArray} {rid : String}

/-- The request still names the reviewed origin and fingerprint. -/
def Binds (py : Interpreter) (sha256 : ByteArray → ByteArray) (review : Review)
    (r : ControlRequest) : Prop :=
  r.origin = review.origin ∧ r.approvalFingerprint = some (approvalFingerprint py sha256 review)

theorem binds_recordInvariant :
    RecordInvariant clock fun _ r => Binds py sha256 review r where
  mono := fun _ h => h
  touch := fun _ h => h
  transition := by
    intro n r now t _ _ h
    cases t <;> exact h

/-- The request `rid` was created for a review, by `request_approval` or by a sensitive
click that names no approval. -/
inductive ApprovalCreated (clock : ℕ → ℚ) (py : Interpreter) (sha256 : ByteArray → ByteArray)
    (rid : String) (review : Review) (w : World) : World → Prop where
  | requested (riskLevel : String) (request : ControlRequest)
      (h : ((requestApproval py sha256 rid review riskLevel).run (exec clock) w).1 = .ok request) :
      ApprovalCreated clock py sha256 rid review w
        ((requestApproval py sha256 rid review riskLevel).run (exec clock) w).2
  | clicked (arguments : Dict) (target : ClickTarget) (actionType : String)
      (request : ControlRequest)
      (hid : (getEither arguments "approval_request_id" "request_id").truthy = false)
      (hreview : sensitiveClickReview py target actionType = .ok review)
      (h : ((sensitiveClickAllowed py sha256 rid arguments target).run (exec clock) w).1 =
        .ok (.approvalRequired request actionType)) :
      ApprovalCreated clock py sha256 rid review w
        ((sensitiveClickAllowed py sha256 rid arguments target).run (exec clock) w).2

variable {review : Review}

theorem create_binds {args : RequestStore.CreateArgs} {w : World}
    {request : ControlRequest} (horigin : args.origin = review.origin)
    (hfingerprint : args.approvalFingerprint = some (approvalFingerprint py sha256 review))
    (h : ((RequestStore.create rid args).run (exec clock) w).1 = .ok request) :
    Stores (fun _ r => Binds py sha256 review r) rid
      ((RequestStore.create rid args).run (exec clock) w).2 := by
  obtain ⟨hlookup, requestType, expiresAt, createdAt, updatedAt, _, rfl⟩ :=
    RequestStore.create_ok h
  intro r hr
  rw [hlookup] at hr
  cases hr
  exact ⟨horigin, hfingerprint⟩

theorem ApprovalCreated.stores {w w' : World}
    (h : ApprovalCreated clock py sha256 rid review w w') :
    Stores (fun _ r => Binds py sha256 review r) rid w' := by
  cases h with
  | requested riskLevel request h => exact create_binds rfl rfl h
  | clicked arguments target actionType request hid hreview h =>
    unfold sensitiveClickAllowed at h ⊢
    cases hclass : Policy.classifySensitiveClick py target.metadata with
    | none =>
      rw [hclass] at h
      cases h
    | some action =>
      rw [hclass] at h
      obtain ⟨review', haction, hrun⟩ := Prog.run_bind_eq_ok h
      rw [hrun] at h ⊢
      simp only [hid] at h haction ⊢
      obtain ⟨request', hcreate, hrun'⟩ := Prog.run_bind_eq_ok h
      simp only [Bool.false_eq_true, if_false] at hcreate hrun' h ⊢
      rw [hrun'] at h ⊢
      cases h
      rw [hreview] at haction
      cases haction
      exact create_binds rfl rfl hcreate

theorem checkScope_ok {r : ControlRequest}
    (h : checkScope py sha256 r review = .ok ()) :
    r.approvalFingerprint = some (approvalFingerprint py sha256 review) ∧
      r.origin = review.origin := by
  simp only [checkScope] at h
  split at h
  · cases h
  · rename_i hsame
    split at h
    · cases h
    · rename_i hpresent
      split at h
      · cases h
      · rename_i horigin
        simp only [hpresent, ne_eq, not_false_eq_true, true_and, not_not] at hsame
        refine ⟨?_, by simpa using horigin⟩
        cases hexpected : r.approvalFingerprint with
        | none => simp [hexpected] at hpresent
        | some expected => rw [hsame, hexpected, Option.getD_some]

/-- A verification succeeds only for a request that is stored as approved and unused and
whose fingerprint and origin are those of the verified values. -/
theorem verifyApprovalScope_ok {consume : Bool} {w : World} {r : ControlRequest}
    (h : ((verifyApprovalScope py sha256 rid review consume).run (exec clock) w).1 = .ok r) :
    ∃ r₀, w.requests.lookup rid = some r₀ ∧ r₀.status = .approved ∧ r₀.used = false ∧
      r₀.approvalFingerprint = some (approvalFingerprint py sha256 review) ∧
      r₀.origin = review.origin := by
  unfold verifyApprovalScope at h
  obtain ⟨r₀, hget, hrun⟩ := Prog.run_bind_eq_ok h
  rw [hrun] at h
  split at h
  · cases h
  · rename_i happroved
    have hstatus : r₀.status = .approved := by simpa using happroved
    split at h
    · cases h
    · rename_i hused
      obtain ⟨_, hcheck, _⟩ := Prog.run_bind_eq_ok h
      rw [Prog.run_ofExcept] at hcheck
      obtain ⟨hfingerprint, horigin⟩ := checkScope_ok hcheck
      have hlookup := RequestStore.get_ok_of_ne_expired hget (by rw [hstatus]; decide)
      exact ⟨r₀, hlookup, hstatus, by simpa using hused, hfingerprint, horigin⟩

/-- Whatever happens to the request between review and use, a successful verification
is for a stored request that is approved and unused, and the verified values are the
reviewed ones. -/
theorem verifyApprovalScope_bound (hsha : Function.Injective sha256) {review review' : Review}
    {w₀ w₁ : World} (hcreated : ApprovalCreated clock py sha256 rid review w₀ w₁)
    (calls : List StoreCall) (hcalls : NotRecreated rid calls) (consume : Bool)
    (r : ControlRequest)
    (hverify : ((verifyApprovalScope py sha256 rid review' consume).run (exec clock)
      (runCalls clock py w₁ calls)).1 = .ok r) :
    (∃ stored, (runCalls clock py w₁ calls).requests.lookup rid = some stored ∧
      stored.status = .approved ∧ stored.used = false) ∧
    review'.origin = review.origin ∧ SameReview py review review' := by
  obtain ⟨stored, hlookup, hstatus, hused, hfingerprint, horigin⟩ := verifyApprovalScope_ok hverify
  obtain ⟨horigin', hfingerprint'⟩ :=
    runCalls_stores (binds_recordInvariant review) py hcalls hcreated.stores stored hlookup
  refine ⟨⟨stored, hlookup, hstatus, hused⟩, horigin.symm.trans horigin', ?_⟩
  apply sameReview_of_fingerprint_eq hsha
  exact Option.some.inj (hfingerprint'.symm.trans hfingerprint)

end Gate

def checkoutReview : Review where
  origin := "https://shop.example"
  topLevelUrl := "https://shop.example/pay"
  actionSummary := "Submit payment"
  structuredDetails := [("amount", .int 12), ("origin", .str "https://cdn.example")]

/-- The same review with other whitespace and another spelling of the amount. -/
def respelledReview : Review where
  origin := "https://shop.example"
  topLevelUrl := "https://shop.example/pay "
  actionSummary := "Submit payment"
  structuredDetails := [("origin", .str " https://cdn.example"), ("amount", .str "12")]

theorem verifyApprovalScope_bound_checkout : SameReview .ascii checkoutReview respelledReview := by
  obtain ⟨request, hrequest⟩ := Except.exists_eq_ok (x := ((requestApproval .ascii id "req_1"
    checkoutReview "high").run (exec fun n => n) .empty).1) (by decide +kernel)
  have hcreated : ApprovalCreated (fun n => n) .ascii id "req_1" checkoutReview .empty _ :=
    .requested "high" request hrequest
  obtain ⟨r, hr⟩ :=
    Except.exists_eq_ok (x := ((verifyApprovalScope .ascii id "req_1" respelledReview
    true).run (exec fun n => n) (runCalls (fun n => n) .ascii
      ((requestApproval .ascii id "req_1" checkoutReview "high").run (exec fun n => n) .empty).2
      [.approve "req_1"])).1) (by decide +kernel)
  have hcalls : NotRecreated "req_1" [.approve "req_1"] := by
    intro c hc hcreate
    rw [List.mem_singleton.1 hc] at hcreate
    cases hcreate
  exact (verifyApprovalScope_bound Function.injective_id hcreated [.approve "req_1"] hcalls true
    r hr).2.2

end OmniDoer.Approval
