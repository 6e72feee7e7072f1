import OmniDoer.Verification.Requests.Invariants

/-! # Methods of the store that run alone -/

namespace OmniDoer.Requests

open Py Effects Tables Transition

variable {clock : ℕ → ℚ} {rid : String} {w : World}

variable {r : ControlRequest}

theorem expireIfNeeded_of_not_expirable (h : r.status ∉ expirableStatuses)
    (n : ℕ) : expireIfNeeded clock r n = (r, n) := by
  rw [expireIfNeeded, if_neg h]

theorem expireIfNeeded_used (r : ControlRequest) (n : ℕ) :
    (expireIfNeeded clock r n).1.used = r.used := by
  unfold expireIfNeeded
  split
  · split <;> rfl
  · rfl

theorem expireIfNeeded_expiresAt (r : ControlRequest) (n : ℕ) :
    (expireIfNeeded clock r n).1.expiresAt = r.expiresAt := by
  unfold expireIfNeeded
  split
  · split <;> rfl
  · rfl

variable (clock) in
theorem expireIfNeeded_eq (r : ControlRequest) (n : ℕ) :
    ∃ status t, (expireIfNeeded clock r n).1 = { r with status := status, updatedAt := t } := by
  unfold expireIfNeeded
  split
  · split
    · exact ⟨.expired, _, rfl⟩
    · exact ⟨r.status, r.updatedAt, rfl⟩
  · exact ⟨r.status, r.updatedAt, rfl⟩

/-- The readings of the clock when a request that has not expired is read. -/
def readings (r : ControlRequest) : ℕ := if r.status ∈ expirableStatuses then 1 else 0

theorem expireIfNeeded_of_in_time (hclock : Monotone clock) {n : ℕ}
    (h : clock (n + readings r) ≤ r.expiresAt) :
    expireIfNeeded clock r n = (r, n + readings r) := by
  unfold expireIfNeeded
  unfold readings at h ⊢
  split
  · rename_i hs
    rw [if_pos hs] at h
    have hnow : r.isExpired (clock n) = false := by
      simpa [ControlRequest.isExpired] using (hclock (Nat.le_succ n)).trans h
    rw [hnow]
    rfl
  · rfl

theorem expireIfNeeded_in_time_iff (hclock : Monotone clock) (r : ControlRequest) (n : ℕ) :
    clock (expireIfNeeded clock r n).2 ≤ r.expiresAt ↔ clock (n + readings r) ≤ r.expiresAt := by
  refine ⟨fun h => ?_, fun h => by rwa [expireIfNeeded_of_in_time hclock h]⟩
  by_cases hexp : r.isExpired (clock n) = true
  · -- a request that has expired at the read is not in time after it
    have hlate : r.expiresAt < clock n := by simpa [ControlRequest.isExpired] using hexp
    exact absurd (hclock (expireIfNeeded_tick r n)) (not_le.2 (h.trans_lt hlate))
  · unfold expireIfNeeded at h
    unfold readings
    split at h
    · rename_i hs
      rwa [if_pos hs]
    · rename_i hs
      rwa [if_neg hs]

/-- The copy and the count of clock readings after `k` reads in a row. -/
def fetched (clock : ℕ → ℚ) (r : ControlRequest) (n : ℕ) : ℕ → ControlRequest × ℕ
  | 0 => (r, n)
  | k + 1 => expireIfNeeded clock (fetched clock r n k).1 (fetched clock r n k).2

theorem fetched_succ (r : ControlRequest) (n k : ℕ) :
    fetched clock (expireIfNeeded clock r n).1 (expireIfNeeded clock r n).2 k =
      fetched clock r n (k + 1) := by
  induction k with
  | zero => rfl
  | succ k ih =>
    rw [fetched, ih]
    rfl

theorem fetched_of_in_time (hclock : Monotone clock) {n k : ℕ}
    (h : clock (n + k * readings r) ≤ r.expiresAt) :
    fetched clock r n k = (r, n + k * readings r) := by
  induction k with
  | zero => simp [fetched]
  | succ k ih =>
    rw [Nat.add_one_mul, ← Nat.add_assoc] at h ⊢
    rw [fetched, ih ((hclock (Nat.le_add_right _ _)).trans h), expireIfNeeded_of_in_time hclock h]

theorem fetched_in_time_iff (hclock : Monotone clock) (r : ControlRequest) (n k : ℕ) :
    clock (fetched clock r n k).2 ≤ r.expiresAt ↔ clock (n + k * readings r) ≤ r.expiresAt := by
  refine ⟨fun h => ?_, fun h => by rwa [fetched_of_in_time hclock h]⟩
  induction k with
  | zero => simpa [fetched] using h
  | succ k ih =>
    have hbefore := ih ((hclock (expireIfNeeded_tick _ _)).trans h)
    rw [fetched, fetched_of_in_time hclock hbefore, expireIfNeeded_in_time_iff hclock] at h
    rwa [Nat.add_one_mul, ← Nat.add_assoc]

variable (clock) in
theorem expireIfNeeded_cases (r : ControlRequest) (n : ℕ) :
    (expireIfNeeded clock r n).1 = r ∨ (expireIfNeeded clock r n).1.status = .expired := by
  unfold expireIfNeeded
  split
  · split
    · exact .inr rfl
    · exact .inl rfl
  · exact .inl rfl

theorem exec_getLocked_lookup
    (h : (exec clock (.getLocked rid) w).1 = .ok r) :
    (exec clock (.getLocked rid) w).2.requests.lookup rid = some r := by
  simp only [exec] at h ⊢
  split at h
  · cases h
  · rename_i r₀ hr₀
    cases h
    have hid : rid = (expireIfNeeded clock r₀ w.tick).1.requestId := by
      rw [expireIfNeeded_requestId, Table.key_of_lookup hr₀]
    simp only [Table.lookup_insert, if_pos hid]

namespace RequestStore

variable {r : ControlRequest}

theorem get_run_of_lookup (h : w.requests.lookup rid = some r) :
    (get rid).run (exec clock) w =
      (.ok (expireIfNeeded clock r w.tick).1,
        { w with
          requests := w.requests.insert (expireIfNeeded clock r w.tick).1
          tick := (expireIfNeeded clock r w.tick).2 }) := by
  simp [get, StoreProg.getLocked, exec, h]

theorem get_ok (h : ((get rid).run (exec clock) w).1 = .ok r) :
    ∃ r₀, w.requests.lookup rid = some r₀ ∧ r = (expireIfNeeded clock r₀ w.tick).1 := by
  cases hlookup : w.requests.lookup rid with
  | none => simp [get, StoreProg.getLocked, exec, hlookup] at h
  | some r₀ =>
    rw [get_run_of_lookup hlookup] at h
    cases h
    exact ⟨r₀, rfl, rfl⟩

theorem get_ok_of_ne_expired (h : ((get rid).run (exec clock) w).1 = .ok r)
    (hr : r.status ≠ .expired) : w.requests.lookup rid = some r := by
  obtain ⟨r₀, hlookup, rfl⟩ := get_ok h
  rcases expireIfNeeded_cases clock r₀ w.tick with he | he
  · rw [he]
    exact hlookup
  · exact absurd he hr

variable (clock) in
theorem update_run (r : ControlRequest) (w : World) :
    ∃ audit, (update r).run (exec clock) w =
      (.ok (r.touch (clock w.tick)),
        ⟨w.requests.insert (r.touch (clock w.tick)), audit, w.tick + 1⟩) := by
  simp only [update, StoreProg.updateLocked, Prog.op_bind, Prog.run_op, Prog.pure_bind]
  split <;> exact ⟨_, rfl⟩

theorem ensureActionable_run_expired (allowFulfilled : Bool)
    (h : r.isExpired (clock w.tick) = true) :
    ∃ audit, (ensureActionable r allowFulfilled).run (exec clock) w =
      (.error ⟨.valueError, "request expired"⟩,
        ⟨w.requests.insert ((Transition.expire.apply r).touch (clock (w.tick + 1))), audit,
          w.tick + 2⟩) := by
  obtain ⟨audit, hrun⟩ := update_run clock (expire.apply r) { w with tick := w.tick + 1 }
  refine ⟨audit, ?_⟩
  simp only [ensureActionable, StoreProg.time, Prog.op_bind, Prog.run_op, exec, Prog.pure_bind, h]
  change (update (expire.apply r) >>= fun _ => StoreProg.valueError "request expired").run
    (exec clock) { w with tick := w.tick + 1 } = _
  rw [Prog.run_bind_ok hrun]
  rfl

variable {allowFulfilled : Bool}

theorem ensureActionable_run_used
    (h : r.isExpired (clock w.tick) = false) (hused : ¬ Actionable allowFulfilled r) :
    (ensureActionable r allowFulfilled).run (exec clock) w =
      (.error ⟨.valueError, "request already used"⟩, { w with tick := w.tick + 1 }) := by
  have hcheck : (r.used && !(allowFulfilled && r.status == .fulfilled)) = true := by
    cases allowFulfilled <;> simpa [Actionable] using hused
  simp only [ensureActionable, StoreProg.time, Prog.op_bind, Prog.run_op, exec, Prog.pure_bind, h,
    hcheck]
  rfl

theorem ensureActionable_run_ok
    (h : r.isExpired (clock w.tick) = false) (hact : Actionable allowFulfilled r) :
    (ensureActionable r allowFulfilled).run (exec clock) w =
      (.ok (), { w with tick := w.tick + 1 }) := by
  have hcheck : (r.used && !(allowFulfilled && r.status == .fulfilled)) = false := by
    cases hused : r.used with
    | false => rfl
    | true =>
      obtain ⟨rfl, hs⟩ := hact hused
      simp [hs]
  simp only [ensureActionable, StoreProg.time, Prog.op_bind, Prog.run_op, exec, Prog.pure_bind, h,
    hcheck]
  rfl

theorem ensureActionable_ok_iff :
    ((ensureActionable r allowFulfilled).run (exec clock) w).1 = .ok () ↔
      r.isExpired (clock w.tick) = false ∧ Actionable allowFulfilled r := by
  cases hexp : r.isExpired (clock w.tick) with
  | true =>
    obtain ⟨audit, hrun⟩ := ensureActionable_run_expired allowFulfilled hexp
    simp [hrun]
  | false =>
    by_cases hact : Actionable allowFulfilled r
    · simp [ensureActionable_run_ok hexp hact, hact]
    · simp [ensureActionable_run_used hexp hact, hact]

def PassesGuard (clock : ℕ → ℚ) (allowFulfilled : Bool) (rid : String) (w : World)
    (r : ControlRequest) : Prop :=
  w.requests.lookup rid = some r ∧ Actionable allowFulfilled r ∧
    clock (w.tick + readings r) ≤ r.expiresAt

theorem getActionable_ok_iff (hclock : Monotone clock) :
    ((getActionable rid allowFulfilled).run (exec clock) w).1 = .ok r ↔
      PassesGuard clock allowFulfilled rid w r := by
  constructor
  · intro h
    rw [getActionable] at h
    obtain ⟨copy, hget, hrun⟩ := Prog.run_bind_eq_ok h
    rw [hrun] at h
    obtain ⟨_, hensure, hrun'⟩ := Prog.run_bind_eq_ok h
    rw [hrun'] at h
    cases h
    obtain ⟨r₀, hlookup, rfl⟩ := get_ok hget
    rw [get_run_of_lookup hlookup] at hensure
    obtain ⟨hexp, hact⟩ := ensureActionable_ok_iff.1 hensure
    have htime : clock (expireIfNeeded clock r₀ w.tick).2 ≤ r₀.expiresAt := by
      simpa [ControlRequest.isExpired, expireIfNeeded_expiresAt] using hexp
    rw [expireIfNeeded_in_time_iff hclock] at htime
    rw [expireIfNeeded_of_in_time hclock htime] at hact ⊢
    exact ⟨hlookup, hact, htime⟩
  · rintro ⟨hlookup, hact, htime⟩
    have hget : (get rid).run (exec clock) w = _ := get_run_of_lookup hlookup
    rw [expireIfNeeded_of_in_time hclock htime] at hget
    have hensure : ((ensureActionable r allowFulfilled).run (exec clock)
        ((get rid).run (exec clock) w).2).1 = .ok () := by
      rw [hget]
      exact ensureActionable_ok_iff.2 ⟨by simpa [ControlRequest.isExpired] using htime, hact⟩
    rw [getActionable, Prog.run_bind_of_ok (congrArg Prod.fst hget), Prog.run_bind_of_ok hensure]
    rfl

theorem markChallengeCompleted_run (hclock : Monotone clock) (rid : String) (w : World) :
    ((∃ e, ((markChallengeCompleted rid).run (exec clock) w).1 = .error e) ∧
        ¬ ∃ r, PassesGuard clock true rid w r) ∨
      ∃ r t, PassesGuard clock true rid w r ∧
        ((markChallengeCompleted rid).run (exec clock) w).1 =
          .ok ((Transition.completeChallenge.apply r).touch t) ∧
        ((markChallengeCompleted rid).run (exec clock) w).2.requests.lookup rid =
          some ((Transition.completeChallenge.apply r).touch t) := by
  cases hguard : ((getActionable rid true).run (exec clock) w).1 with
  | error e =>
    refine .inl ⟨⟨e, ?_⟩, ?_⟩
    · rw [markChallengeCompleted, Prog.run_bind_of_error hguard]
    · rintro ⟨r, hr⟩
      rw [(getActionable_ok_iff hclock).2 hr] at hguard
      cases hguard
  | ok r =>
    have hpass := (getActionable_ok_iff hclock).1 hguard
    obtain ⟨audit, hrun⟩ := update_run clock (completeChallenge.apply r)
      ((getActionable rid true).run (exec clock) w).2
    have hmark : (markChallengeCompleted rid).run (exec clock) w = _ :=
      (Prog.run_bind_of_ok hguard).trans hrun
    refine .inr ⟨r, _, hpass, congrArg Prod.fst hmark, ?_⟩
    have hid : rid = (completeChallenge.apply r).requestId := by
      rw [apply_requestId, Table.key_of_lookup hpass.1]
    rw [hmark, hid]
    exact Table.lookup_insert_self _ _

end RequestStore

/-- A request that lives for `ttl` readings of the clock `fun n => n`. -/
def payment (ttl : ℤ) : RequestStore.CreateArgs where
  requestType := "payment_approval"
  origin := "https://shop.example"
  topLevelUrl := "https://shop.example/pay"
  actionSummary := "Submit payment"
  ttlSeconds := ttl

end OmniDoer.Requests
