import OmniDoer.Verification.Requests.Lifecycle
import Mathlib.Data.List.Induction

/-! # Invariants of stored requests

A property of single requests that every transition keeps holds of whatever is stored,
after any sequence of calls and under any interleaving of callers. Races lose updates,
but each write is still a transition of something that was stored. -/

namespace OmniDoer.Requests

open Py Effects Tables Transition

variable {clock : ℕ → ℚ} {P : ℕ → ControlRequest → Prop} {rid : String}

/-- A property that every transition keeps. It may depend on how often the clock has
been read. -/
structure RecordInvariant (clock : ℕ → ℚ) (P : ℕ → ControlRequest → Prop) : Prop where
  mono : ∀ {n n' r}, n ≤ n' → P n r → P n' r
  touch : ∀ {n r} (t : ℚ), P n r → P n (r.touch t)
  transition : ∀ {n r now t}, (∀ x ∈ now, ∃ k < n, clock k = x) → Transition.Enabled now r t →
    P n r → P n (t.apply r)

variable (h : RecordInvariant clock P)

include h in
theorem RecordInvariant.and {Q : ℕ → ControlRequest → Prop}
    (h' : RecordInvariant clock Q) : RecordInvariant clock fun n r => P n r ∧ Q n r where
  mono := fun hn hr => ⟨h.mono hn hr.1, h'.mono hn hr.2⟩
  touch := fun t hr => ⟨h.touch t hr.1, h'.touch t hr.2⟩
  transition := fun hnow ht hr => ⟨h.transition hnow ht hr.1, h'.transition hnow ht hr.2⟩

/-- The stored request `rid`, if any, has the property. -/
def Stores (P : ℕ → ControlRequest → Prop) (rid : String) (w : World) : Prop :=
  ∀ r ∈ w.requests.lookup rid, P w.tick r

/-- A copy of the request that a caller holds has the property, and the reading of the
clock it holds was made. -/
def Remembers (clock : ℕ → ℚ) (P : ℕ → ControlRequest → Prop) (rid : String) (n : ℕ)
    (m : Memory) : Prop :=
  (∀ r ∈ m.read, r.requestId = rid → P n r) ∧ ∀ t ∈ m.now, ∃ k < n, clock k = t

theorem remembers_empty (n : ℕ) : Remembers clock P rid n Memory.empty :=
  ⟨fun _ hr => (nomatch hr), fun _ ht => (nomatch ht)⟩

include h in
theorem Remembers.mono {n n' : ℕ} (hn : n ≤ n') {m : Memory}
    (hm : Remembers clock P rid n m) : Remembers clock P rid n' m := by
  refine ⟨fun r hr hid => h.mono hn (hm.1 r hr hid), fun t ht => ?_⟩
  obtain ⟨k, hk, he⟩ := hm.2 t ht
  exact ⟨k, hk.trans_le hn, he⟩

theorem expireIfNeeded_tick (r : ControlRequest) (n : ℕ) : n ≤ (expireIfNeeded clock r n).2 := by
  unfold expireIfNeeded
  split
  · split
    · exact Nat.le_add_right n 2
    · exact Nat.le_succ n
  · exact le_rfl

variable {r : ControlRequest}

include h in
theorem RecordInvariant.expireIfNeeded {n : ℕ}
    (hr : P n r) : P (expireIfNeeded clock r n).2 (expireIfNeeded clock r n).1 := by
  unfold Requests.expireIfNeeded
  split
  · split
    · rename_i hexp
      apply h.touch
      have ht : expire.Enabled (some (clock n)) r := ⟨_, rfl, hexp⟩
      refine h.transition ?_ ht (h.mono (Nat.le_add_right n 2) hr)
      rintro x ⟨rfl⟩
      exact ⟨n, by omega, rfl⟩
    · exact h.mono (Nat.le_succ n) hr
  · exact hr

theorem exec_tick (o : StoreOp) (w : World) : w.tick ≤ (exec clock o w).2.tick := by
  cases o with
  | time | updateLocked => exact Nat.le_succ _
  | getLocked requestId =>
    simp only [exec]
    split
    · exact le_rfl
    · exact expireIfNeeded_tick _ _
  | listLocked =>
    exact mapAccumRows_snd (R := (· ≤ ·)) _ (fun _ => le_rfl)
      (fun s a u hu => (expireIfNeeded_tick a s).trans hu) w.requests.rows w.tick
  | createLocked | auditAppend => exact le_rfl

theorem exec_rely (id : String) (new : ControlRequest → Prop) (o : StoreOp) (w : World)
    {frames : Prop} :
    (lifecycle id new frames).rely o (exec clock o w).1 := by
  cases o with
  | getLocked requestId =>
    simp only [exec]
    split
    · trivial
    · rename_i r hr
      change (expireIfNeeded clock r w.tick).1.requestId = requestId
      rw [expireIfNeeded_requestId, Table.key_of_lookup hr]
  | updateLocked r => exact ⟨_, rfl⟩
  | time | listLocked | createLocked | auditAppend => trivial

variable {w : World}

section

variable (h : RecordInvariant clock P)
include h

theorem Stores.insert (hw : Stores P rid w) {n : ℕ} (hn : w.tick ≤ n)
    (hr : r.requestId = rid → P n r) :
    Stores P rid { w with requests := w.requests.insert r, tick := n } := by
  intro r' hr'
  rw [Table.lookup_insert] at hr'
  split at hr'
  · rename_i hid
    cases hr'
    exact hr hid.symm
  · exact h.mono hn (hw r' hr')

theorem Stores.getLocked (hw : Stores P rid w)
    {m : Memory} (hm : Remembers clock P rid w.tick m) (requestId : String) :
    Stores P rid (exec clock (.getLocked requestId) w).2 ∧
      Remembers clock P rid (exec clock (.getLocked requestId) w).2.tick
        (m.next (.getLocked requestId) (exec clock (.getLocked requestId) w).1) := by
  simp only [exec]
  split
  · exact ⟨hw, hm⟩
  · rename_i r hr
    have hread (hid : (expireIfNeeded clock r w.tick).1.requestId = rid) :
        P (expireIfNeeded clock r w.tick).2 (expireIfNeeded clock r w.tick).1 := by
      rw [expireIfNeeded_requestId, Table.key_of_lookup hr] at hid
      exact h.expireIfNeeded (hw r (hid ▸ hr))
    refine ⟨hw.insert h (expireIfNeeded_tick r w.tick) hread, ?_, ?_⟩
    · rintro r' ⟨rfl⟩
      exact hread
    · intro t ht
      cases ht

theorem Stores.listLocked (hw : Stores P rid w) : Stores P rid (exec clock .listLocked w).2 := by
  obtain ⟨u, hu, he, hlast⟩ := w.requests.lookup_mapAccum (R := (· ≤ ·)) (expireIfNeeded clock)
    (expireIfNeeded_requestId clock) (fun _ => le_rfl)
    (fun s a u hu => (expireIfNeeded_tick a s).trans hu) w.tick rid
  intro r' hr'
  rw [show (exec clock .listLocked w).2.requests.lookup rid = _ from he] at hr'
  obtain ⟨r, hr, rfl⟩ := Option.map_eq_some_iff.1 hr'
  exact h.mono (hlast r hr) (h.expireIfNeeded (h.mono hu (hw r hr)))

theorem exec_keeps {id : String} {new : ControlRequest → Prop}
    (hnew : ∀ n r, id = rid → new r → P n r) {o : StoreOp} {m : Memory}
    (hw : Stores P rid w) (hm : Remembers clock P rid w.tick m)
    (hguar : (lifecycle id new).guar m o) :
    Stores P rid (exec clock o w).2 ∧
      Remembers clock P rid (exec clock o w).2.tick (m.next o (exec clock o w).1) := by
  have htick : w.tick ≤ (exec clock o w).2.tick := exec_tick o w
  cases o with
  | time =>
    refine ⟨fun r hr => h.mono htick (hw r hr), (hm.mono h htick).1, ?_⟩
    rintro t ⟨rfl⟩
    exact ⟨w.tick, Nat.lt_succ_self _, rfl⟩
  | getLocked requestId => exact hw.getLocked h hm requestId
  | updateLocked r =>
    obtain ⟨r₀, t, hread, hid, ht, rfl, -⟩ := hguar
    refine ⟨hw.insert h htick fun hrid => ?_, hm.mono h htick⟩
    have hr₀ : P w.tick r₀ := hm.1 r₀ hread (by simpa using hrid)
    exact h.mono htick (h.touch _ (h.transition hm.2 ht hr₀))
  | listLocked => exact ⟨hw.listLocked h, hm.mono h htick⟩
  | createLocked r =>
    obtain ⟨hid, hr⟩ := hguar
    exact ⟨hw.insert h le_rfl fun hrid => hnew _ r (hid.symm.trans hrid) hr, hm⟩
  | auditAppend e => exact ⟨hw, hm⟩

end

include h in
theorem Prog.Returns.run_stores {α : Type} {id : String}
    {new : ControlRequest → Prop} (hnew : ∀ n r, id = rid → new r → P n r)
    {post : Memory → α → Prop} {p : StoreProg α}
    (hp : p.Returns (lifecycle id new) post Memory.empty) (hw : Stores P rid w) :
    Stores P rid (p.run (exec clock) w).2 := by
  obtain ⟨m, ⟨hstores, _⟩, _⟩ := Prog.Meets.run
    (fun m w => Stores P rid w ∧ Remembers clock P rid w.tick m)
    (fun m w o hi hguar => ⟨exec_rely id new o w, exec_keeps h hnew hi.1 hi.2 hguar⟩)
    hp ⟨hw, remembers_empty w.tick⟩
  exact hstores

/-- The world after a sequence of calls; a call that raises keeps its effects. -/
def runCalls (clock : ℕ → ℚ) (py : Interpreter) (w : World) (calls : List StoreCall) : World :=
  calls.foldl (fun w c => ((c.prog py).run (exec clock) w).2) w

def NotRecreated (rid : String) (calls : List StoreCall) : Prop :=
  ∀ c ∈ calls, c.isCreate = true → c.target ≠ some rid

include h in
theorem StoreCall.run_stores (py : Interpreter) (c : StoreCall)
    (hc : c.isCreate = true → c.target ≠ some rid) (hw : Stores P rid w) :
    Stores P rid ((c.prog py).run (exec clock) w).2 := by
  obtain ⟨id, hid⟩ := c.exists_target
  have hreturns : (c.prog py).Returns (lifecycle id fun _ => c.isCreate = true)
      (fun _ _ => True) Memory.empty :=
    c.prog_returns py hid (fun hcreate _ _ => hcreate) Memory.empty
  refine Prog.Returns.run_stores h (fun n r hrid hcreate => ?_) hreturns hw
  -- a call that inserts has a target, and the target is another request
  obtain ⟨t, ht⟩ : ∃ t, c.target = some t := by
    cases c <;> simp_all [StoreCall.isCreate, StoreCall.target]
  exact absurd (by rw [ht, hid t ht, hrid]) (hc hcreate)

include h in
theorem runCalls_stores (py : Interpreter) {calls : List StoreCall}
    (hcalls : NotRecreated rid calls) (hw : Stores P rid w) :
    Stores P rid (runCalls clock py w calls) := by
  induction calls generalizing w with
  | nil => exact hw
  | cons c rest ih =>
    apply ih fun c' hc' => hcalls c' (List.mem_cons_of_mem _ hc')
    exact c.run_stores h py (hcalls c List.mem_cons_self) hw

theorem RequestStore.create_ok {args : CreateArgs} {request : ControlRequest}
    (h : ((create rid args).run (exec clock) w).1 = .ok request) :
    ((create rid args).run (exec clock) w).2.requests.lookup rid = some request ∧
      ∃ requestType expiresAt createdAt updatedAt,
        RequestType.ofName? args.requestType = some requestType ∧
        request = newRequest rid requestType args expiresAt createdAt updatedAt := by
  unfold create at h ⊢
  cases htype : RequestType.ofName? args.requestType with
  | none =>
    rw [htype] at h
    cases h
  | some requestType =>
    rw [htype] at h
    cases h
    exact ⟨Table.lookup_insert_self _ _, requestType, _, _, _, rfl, rfl⟩

/-- What holds of every request from its creation on. -/
structure ControlRequest.Sound (r : ControlRequest) : Prop where
  oneTimeUse : r.oneTimeUse = true
  used : r.status ∈ [.fulfilled, .consumed, .denied, .released, .challengeCompleted, .cancelled] →
    r.used = true
  responseCiphertext : r.responseCiphertext ≠ none →
    r.used = true ∧ r.status ∈ [.fulfilled, .challengeCompleted, .expired]

theorem ControlRequest.IsNew.sound (h : r.IsNew) : r.Sound where
  oneTimeUse := h.oneTimeUse
  used := by
    intro hs
    rcases h.status with he | he <;> simp [he] at hs
  responseCiphertext := fun hne => absurd h.responseCiphertext hne

theorem ControlRequest.Sound.ciphertext_eq_none (h : r.Sound)
    (hused : r.used = false) : r.responseCiphertext = none := by
  by_contra hne
  simp [(h.responseCiphertext hne).1] at hused

theorem sound_recordInvariant : RecordInvariant clock fun _ r => r.Sound where
  mono := fun _ h => h
  touch := fun _ h => ⟨h.oneTimeUse, h.used, h.responseCiphertext⟩
  transition := by
    intro n r now t _ ht h
    cases t with
    | expire => exact ⟨h.oneTimeUse, by simp [apply], fun hne => by
        simp [apply, (h.responseCiphertext hne).1]⟩
    | submit | completeChallenge =>
      exact ⟨h.oneTimeUse, fun _ => h.oneTimeUse, fun _ => ⟨h.oneTimeUse, by
        simp [apply]⟩⟩
    | approve =>
      have hnone := h.ciphertext_eq_none ht
      exact ⟨h.oneTimeUse, by simp [apply], fun hne => absurd hnone hne⟩
    | deny =>
      have hnone := h.ciphertext_eq_none ht
      exact ⟨h.oneTimeUse, fun _ => h.oneTimeUse, fun hne => absurd hnone hne⟩
    | cancel reason =>
      refine ⟨h.oneTimeUse, fun _ => h.oneTimeUse, fun hne => ?_⟩
      have hs := (h.responseCiphertext hne).2
      simp only [Enabled, completedRequestStatuses, abortedRequestStatuses] at ht
      simp only [List.mem_cons] at hs ht
      tauto
    | release =>
      have hnone := h.ciphertext_eq_none ht.1
      exact ⟨h.oneTimeUse, fun _ => h.oneTimeUse, fun hne => absurd hnone hne⟩
    | recordFrame frameId capturedAt width height =>
      exact ⟨h.oneTimeUse, h.used, h.responseCiphertext⟩
    | consume =>
      have hnone := h.ciphertext_eq_none ht.1
      exact ⟨h.oneTimeUse, fun _ => rfl, fun hne => absurd hnone hne⟩

theorem stores_sound_of_create {args : RequestStore.CreateArgs}
    {request : ControlRequest}
    (h : ((RequestStore.create rid args).run (exec clock) w).1 = .ok request) :
    Stores (fun _ r => r.Sound) rid ((RequestStore.create rid args).run (exec clock) w).2 := by
  obtain ⟨hlookup, requestType, expiresAt, createdAt, updatedAt, _, rfl⟩ :=
    RequestStore.create_ok h
  intro r hr
  rw [hlookup] at hr
  cases hr
  exact (RequestStore.newRequest_isNew ..).sound

section Pools

variable {ι α : Type} [DecidableEq ι]

abbrev StorePool (ι α : Type) := Pool ι World StoreOp StoreOp.Ans Error α

/-- What caller `i` remembers. -/
def memoryOf (pool : StorePool ι α) (i : ι) : Memory :=
  Pool.memory Memory.next i Memory.empty pool.log

/-- All callers keep their contracts, and every copy in store or in memory has the
property. -/
structure PoolKeeps (clock : ℕ → ℚ) (P : ℕ → ControlRequest → Prop) (rid : String)
    (post : ι → Memory → α → Prop) (pool : StorePool ι α) : Prop where
  honest : ∀ i, (pool.threads i).Returns (lifecycle rid fun _ => False) (post i) (memoryOf pool i)
  stores : Stores P rid pool.state
  remembers : ∀ i, Remembers clock P rid pool.state.tick (memoryOf pool i)

include h in
theorem PoolKeeps.step {post : ι → Memory → α → Prop}
    {pool : StorePool ι α} (hpool : PoolKeeps clock P rid post pool) (i : ι) :
    PoolKeeps clock P rid post (pool.step (exec clock) i) := by
  have hhonest : (pool.step (exec clock) i).Honest (fun _ => lifecycle rid fun _ => False)
      (fun i m r => ∀ a, r = .ok a → post i m a) Memory.empty :=
    Pool.Honest.step (exec clock) hpool.honest i fun o _ => exec_rely _ _ o _
  rcases pool.step_cases (exec clock) i with he | ⟨o, k, ht, he⟩
  · rwa [he]
  · have hguar : (lifecycle rid fun _ => False).guar (memoryOf pool i) o := by
      have hi := hpool.honest i
      rw [ht] at hi
      exact hi.1
    obtain ⟨hstores, hself⟩ := exec_keeps h (fun _ _ _ hfalse => hfalse.elim) hpool.stores
      (hpool.remembers i) hguar
    refine ⟨hhonest, by rw [he]; exact hstores, fun j => ?_⟩
    rw [he]
    by_cases hj : j = i
    · subst j
      simpa only [memoryOf, Pool.memory_append_self] using hself
    · simp only [memoryOf, Pool.memory_append_other Memory.next (Ne.symm hj)]
      exact (hpool.remembers j).mono h (exec_tick o pool.state)

theorem mem_written_iff (pool : StorePool ι α) (i : ι) (r : ControlRequest) :
    r ∈ (memoryOf pool i).written ↔ ∃ x, (i, ⟨.updateLocked r, x⟩) ∈ pool.log := by
  unfold memoryOf
  induction pool.log using List.reverseRecOn with
  | nil => simp [Memory.empty]
  | append_singleton log e ih =>
    obtain ⟨j, o, x⟩ := e
    by_cases hj : j = i
    · subst j
      rw [Pool.memory_append_self]
      cases o with
      | updateLocked r' =>
        simp only [Memory.next, List.mem_append, List.mem_singleton, ih, exists_or]
        refine or_congr Iff.rfl ⟨?_, ?_⟩
        · rintro rfl
          exact ⟨x, rfl⟩
        · rintro ⟨y, hy⟩
          cases hy
          rfl
      | getLocked requestId => cases x <;> simpa [Memory.next] using ih
      | time | listLocked | createLocked | auditAppend => simpa [Memory.next] using ih
    · rw [Pool.memory_append_other _ hj, ih]
      simp [Ne.symm hj]

end Pools

end OmniDoer.Requests
