import OmniDoer.Model.Orchestrator

/-! # Approvals for the session

What a call that skips the prompt relies on. The store has the texts of keys only, which say nothing
about the host that a prompt was for. -/

namespace OmniDoer.Orchestrator

open Rust ExecPolicy Effects List

variable {J φ ρ : Type}

/-- A call of `with_cached_approval` by a runtime, with what its reviewer would answer. -/
structure ApprovalCall (φ ρ : Type) where
  runtime : Runtime
  keys : List (ApprovalKey φ)
  ofRuntime : ∀ key ∈ keys, key.runtime = runtime
  network : Option NetworkApprovalContext
  answer : ReviewDecision ρ

/-- The texts that are approved, and the calls that a reviewer has approved for the session. -/
structure Approvals (φ ρ : Type) where
  store : List Text
  answered : List (ApprovalCall φ ρ)

section Store

variable (toText : List (String × KeyField J) → Option Text) (profileJson : φ → J)

/-- A call, and whether a reviewer was asked and approved it for the session. -/
def Approvals.step [DecidableEq ρ] (approvals : Approvals φ ρ) (call : ApprovalCall φ ρ) :
    Approvals φ ρ :=
  let (decision, fetched, store) :=
    withCachedApproval toText profileJson approvals.store call.keys call.answer
  ⟨store,
    if fetched = true ∧ decision = .approvedForSession then approvals.answered ++ [call]
    else approvals.answered⟩

/-- A call that skips the prompt was shown before, key by key and with the same target. -/
def Shown (approvals : Approvals φ ρ) (call : ApprovalCall φ ρ) : Prop :=
  (withCachedApproval toText profileJson approvals.store call.keys call.answer).2.1 = false →
    ∀ key ∈ call.keys, ∃ earlier ∈ approvals.answered,
    earlier.runtime = call.runtime ∧ key ∈ earlier.keys ∧ earlier.network = call.network

/-- No call that was approved has a key of this one and another target, or other permissions under
one serialised key. -/
def Apart (approvals : Approvals φ ρ) (call : ApprovalCall φ ρ) : Prop :=
  ∀ earlier ∈ approvals.answered, ∀ key ∈ earlier.keys, ∀ key' ∈ call.keys,
    key.json profileJson = key'.json profileJson → key.additional = key'.additional ∧
      earlier.network = call.network

end Store

variable {toText : List (String × KeyField J) → Option Text} {profileJson : φ → J}

theorem ApprovalKey.eq_of_json_eq {key key' : ApprovalKey φ}
    (hjson : key.json profileJson = key'.json profileJson)
    (hadditional : key.additional = key'.additional) : key = key' := by
  have hpermissions : Function.Injective sandboxPermissionsText := by
    intro a b h
    cases a <;> cases b <;> first | rfl | exact absurd h (by decide)
  cases key <;> cases key' <;>
    simp only [json, additional, cons.injEq, Prod.mk.injEq, KeyField.text.injEq,
      KeyField.texts.injEq, KeyField.flag.injEq, true_and, and_true, hpermissions.eq_iff,
      reduceCtorEq, and_false] at hjson hadditional
  · obtain ⟨rfl, rfl, rfl, rfl, -⟩ := hjson
    rw [hadditional]
  · obtain ⟨rfl, rfl, rfl, rfl, rfl, -⟩ := hjson
    rw [hadditional]
  · rw [hjson.1, hjson.2]

/-- Every text of the store is that of a key that was approved. -/
def Recorded (toText : List (String × KeyField J) → Option Text) (profileJson : φ → J)
    (approvals : Approvals φ ρ) : Prop :=
  ∀ text ∈ approvals.store, ∃ earlier ∈ approvals.answered, ∃ key ∈ earlier.keys,
    toText (key.json profileJson) = some text

theorem Recorded.step [DecidableEq ρ] {approvals : Approvals φ ρ}
    (h : Recorded toText profileJson approvals) (call : ApprovalCall φ ρ) :
    Recorded toText profileJson (approvals.step toText profileJson call) := by
  have hkept : ∀ {c : Prop} [Decidable c], Recorded toText profileJson
      ⟨approvals.store, if c then approvals.answered ++ [call] else approvals.answered⟩ := by
    intro c _ text htext
    obtain ⟨earlier, hearlier, hkey⟩ := h text htext
    exact ⟨earlier, by split <;> simp [hearlier], hkey⟩
  unfold Approvals.step withCachedApproval
  split_ifs
  · exact hkept
  · exact hkept
  · cases call.answer with
    | other decision => exact hkept
    | approvedForSession =>
      intro text htext
      rcases mem_append.1 htext with htext | htext
      · obtain ⟨earlier, hearlier, hkey⟩ := h text htext
        exact ⟨earlier, mem_append_left _ hearlier, hkey⟩
      · obtain ⟨key, hkey, htext⟩ := mem_filterMap.1 htext
        exact ⟨call, by simp, key, hkey, htext⟩

theorem stored_of_not_fetched {store : List Text} {keys : List (ApprovalKey φ)}
    {fetch : ReviewDecision ρ}
    (h : (withCachedApproval toText profileJson store keys fetch).2.1 = false) {key : ApprovalKey φ}
    (hkey : key ∈ keys) : ∃ text ∈ store, toText (key.json profileJson) = some text := by
  unfold withCachedApproval at h
  split_ifs at h with _ hall
  · have hstored := all_eq_true.1 hall key hkey
    cases hsome : toText (key.json profileJson) with
    | none =>
      rw [hsome] at hstored
      cases hstored
    | some text =>
      rw [hsome, Option.any_some, decide_eq_true_eq] at hstored
      exact ⟨text, hstored, rfl⟩
  · split at h <;> cases h

/-- Along every sequence of calls in which no approved key comes back with another target, what
skips the prompt was shown before. -/
theorem session_approval_shown [DecidableEq ρ] (toText : List (String × KeyField J) → Option Text)
    (profileJson : φ → J) (htext : ∀ a b t, toText a = some t → toText b = some t → a = b)
    (calls : List (ApprovalCall φ ρ))
    (hapart : Along (Approvals.step toText profileJson) (Apart profileJson) ⟨[], []⟩ calls) :
    Along (Approvals.step toText profileJson) (Shown toText profileJson) ⟨[], []⟩ calls := by
  have hboth : Along (Approvals.step toText profileJson)
      (fun s x => Apart profileJson s x ∧ Shown toText profileJson s x) ⟨[], []⟩ calls := by
    refine (Along.congr (Recorded toText profileJson) (fun s x h => h.step x)
      (fun s x h => ?_) ?_ calls).1 hapart
    · refine ⟨fun hx => ⟨hx, ?_⟩, And.left⟩
      intro hreplayed key hkey
      obtain ⟨text, hstored, hsome⟩ := stored_of_not_fetched hreplayed hkey
      obtain ⟨earlier, hearlier, key', hkey', htext'⟩ := h text hstored
      have hjson := htext _ _ text htext' hsome
      obtain ⟨hadditional, hnetwork⟩ := hx earlier hearlier key' hkey' key hkey hjson
      obtain rfl := ApprovalKey.eq_of_json_eq hjson hadditional
      exact ⟨earlier, hearlier, (earlier.ofRuntime _ hkey').symm.trans (x.ofRuntime _ hkey),
        hkey', hnetwork⟩
    · exact fun _ h => absurd h not_mem_nil
  exact hboth.mono fun _ _ h => h.2

def lsKey : ApprovalKey Unit :=
  .shell "local".toList ["ls".toList] "file:///".toList .useDefault none

/-- A call for the command, which the reviewer approves for the session. -/
def lsCall (network : Option NetworkApprovalContext) : ApprovalCall Unit Unit :=
  ⟨.shell, [lsKey], fun _ h => List.mem_singleton.1 h ▸ rfl, network, .approvedForSession⟩

/-- `serde_json` on the key of the calls below. -/
def lsText (fields : List (String × KeyField Unit)) : Option Text :=
  if fields = lsKey.json id then
    some ("\x7b\"environment_id\":\"local\",\"command\":[\"ls\"],\"cwd\":\"file:///\",".toList ++
      "\"sandbox_permissions\":\"use_default\",\"additional_permissions\":null\x7d".toList)
  else none

theorem session_approval_shown_twice :
    Along (Approvals.step lsText id) (Shown lsText id) ⟨[], []⟩ [lsCall none, lsCall none] := by
  refine session_approval_shown lsText id (fun a b t ha hb => ?_) _ ?_
  · have honly : ∀ fields, lsText fields = some t → fields = lsKey.json id := by
      intro fields h
      by_contra hne
      rw [lsText, if_neg hne] at h
      cases h
    rw [honly a ha, honly b hb]
  · refine ⟨fun _ h => absurd h not_mem_nil, ?_, trivial⟩
    intro earlier hearlier key hkey key' hkey' _
    obtain rfl : earlier = lsCall none := by
      simpa [Approvals.step, withCachedApproval, lsCall] using hearlier
    rw [mem_singleton.1 hkey, mem_singleton.1 hkey']
    exact ⟨rfl, rfl⟩

/-- The prompt for a host is skipped because the command was approved before without one. -/
theorem host_prompt_skipped :
    ¬ Along (Approvals.step lsText id) (Shown lsText id) ⟨[], []⟩
      [lsCall none, lsCall (some ⟨"example.com".toList, .https⟩)] := by
  rintro ⟨-, h, -⟩
  obtain ⟨earlier, hearlier, -, -, hnetwork⟩ := h (by decide) lsKey mem_cons_self
  obtain rfl : earlier = lsCall none := by
    simpa [Approvals.step, withCachedApproval, lsCall] using hearlier
  cases hnetwork

end OmniDoer.Orchestrator
