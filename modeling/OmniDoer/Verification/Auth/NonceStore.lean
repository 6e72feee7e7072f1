import OmniDoer.Model.Auth
import Mathlib.Tactic.Linarith

/-! # The nonce store

The nonce store is an expiring set: a nonce is kept for `skew_seconds` from the moment
the server received it. The timestamp that is checked beside it is the client's, so the
signature itself stays acceptable until `skew_seconds` after the client's clock. The
second period ends first exactly when the client's clock is behind. -/

namespace OmniDoer.Auth

open Py Effects Tables List

/-- A call of `consume` with the time it went by. -/
structure Consumption where
  args : ConsumeArgs
  now : ℚ
  deriving DecidableEq, Repr

namespace Consumption

def attempt (c : Consumption) : Attempt String ℚ :=
  ⟨c.args.key, c.now, c.now + c.args.skewSeconds⟩

def InWindow (c : Consumption) : Prop :=
  ∃ ts ∈ floatOfString c.args.timestamp, outsideWindow c.now ts c.args.skewSeconds = false

/-- The timestamp, moved on by `skew`, is a number before the end of the time for which
the nonce is kept. -/
def Early (skew : ℚ) (c : Consumption) : Prop :=
  match floatOfString c.args.timestamp with
  | some (.fin q) => q + skew < c.now + c.args.skewSeconds
  | _ => False

instance (skew : ℚ) (c : Consumption) : Decidable (c.Early skew) := by
  unfold Early
  split <;> infer_instance

/-- The two calls are for one device, nonce and timestamp. -/
def SameSignature (c d : Consumption) : Prop :=
  c.args.deviceId = d.args.deviceId ∧ c.args.nonce = d.args.nonce ∧
    c.args.timestamp = d.args.timestamp

instance (c d : Consumption) : Decidable (c.SameSignature d) :=
  inferInstanceAs (Decidable (_ ∧ _ ∧ _))

theorem SameSignature.symm {c d : Consumption} (h : c.SameSignature d) : d.SameSignature c :=
  ⟨h.1.symm, h.2.1.symm, h.2.2.symm⟩

end Consumption

theorem consumeAt_eq_ok_iff {now : ℚ} {args : ConsumeArgs} {nonces nonces' : NonceTable} :
    consumeAt now args nonces = .ok nonces' ↔
      Consumption.InWindow ⟨args, now⟩ ∧
        nonces.enter (Consumption.attempt ⟨args, now⟩) = some nonces' := by
  unfold consumeAt Consumption.InWindow
  cases hts : floatOfString args.timestamp with
  | none => simp [permissionError]
  | some ts =>
    simp only [Option.mem_def, Option.some.injEq, exists_eq_left']
    cases hwindow : outsideWindow now ts args.skewSeconds with
    | true => simp [permissionError]
    | false =>
      rw [ExpiringSet.enter_eq_some]
      cases hlive : (nonces.live now).lookup args.key <;>
        simp [permissionError, Consumption.attempt, hlive]

theorem Consumption.Early.lt_of_inWindow {skew : ℚ} {c d : Consumption} (h : c.Early skew)
    (hd : d.InWindow) (hts : c.args.timestamp = d.args.timestamp)
    (hskew : (d.args.skewSeconds : ℚ) ≤ skew) : d.now < c.now + c.args.skewSeconds := by
  obtain ⟨ts, hsome, hwindow⟩ := hd
  unfold Early at h
  rw [hts] at h
  rw [Option.mem_def.1 hsome] at h
  cases ts with
  | nan | inf => exact h.elim
  | fin q =>
    simp only [outsideWindow, decide_eq_false_iff_not] at hwindow
    have habs := le_abs_self (d.now - q)
    linarith

/-- A signature that was accepted can be used once more, at the moment its nonce is
dropped, unless its timestamp is a number before the time of the server. -/
theorem consumeAt_again_iff {now : ℚ} {args : ConsumeArgs} {nonces nonces' : NonceTable}
    (h : consumeAt now args nonces = .ok nonces') :
    (∃ t nonces'', now ≤ t ∧ consumeAt t args nonces' = .ok nonces'') ↔
      ¬ Consumption.Early args.skewSeconds ⟨args, now⟩ := by
  obtain ⟨hwindow, henter⟩ := consumeAt_eq_ok_iff.1 h
  have hkept : nonces'.lookup args.key = some ⟨args.key, now + args.skewSeconds⟩ := by
    obtain ⟨_, rfl⟩ := ExpiringSet.enter_eq_some.1 henter
    exact Table.lookup_insert_self _ _
  constructor
  · rintro ⟨t, nonces'', _, hagain⟩ hearly
    obtain ⟨hwindow', henter'⟩ := consumeAt_eq_ok_iff.1 hagain
    have hlt := hearly.lt_of_inWindow hwindow' rfl le_rfl
    exact (ExpiringSet.enter_of_live henter' hkept hlt).1 rfl
  · intro hlate
    obtain ⟨ts, hsome, hin⟩ := hwindow
    have hagain (t : ℚ) (ht : now + args.skewSeconds ≤ t)
        (hout : outsideWindow t ts args.skewSeconds = false) :
        ∃ nonces'', consumeAt t args nonces' = .ok nonces'' := by
      have hdropped : (nonces'.live t).lookup args.key = none :=
        ExpiringSet.lookup_live_of_le hkept ht
      refine ⟨(nonces'.live t).insert ⟨args.key, t + args.skewSeconds⟩, ?_⟩
      rw [consumeAt_eq_ok_iff, ExpiringSet.enter_eq_some]
      exact ⟨⟨ts, hsome, hout⟩, hdropped, rfl⟩
    cases ts with
    | inf s => cases hin
    | nan =>
      obtain ⟨nonces'', hok⟩ := hagain (max now (now + args.skewSeconds)) (le_max_right _ _) rfl
      exact ⟨_, nonces'', le_max_left _ _, hok⟩
    | fin q =>
      simp only [Consumption.Early, Option.mem_def.1 hsome] at hlate
      simp only [outsideWindow, decide_eq_false_iff_not, not_lt] at hin
      have hskew : q - now ≤ args.skewSeconds := by
        rw [abs_sub_comm] at hin
        exact (le_abs_self _).trans hin
      obtain ⟨nonces'', hok⟩ := hagain (now + args.skewSeconds) le_rfl (by
        simp only [outsideWindow, decide_eq_false_iff_not, not_lt, abs_le]
        constructor <;> linarith)
      exact ⟨_, nonces'', by linarith, hok⟩

theorem consumeAt_again_exact :
    let args : ConsumeArgs := ⟨"dev", "n", "100", none, 300⟩
    ∃ nonces, consumeAt 100 args .empty = .ok nonces ∧
      ∃ t nonces', 100 ≤ t ∧ consumeAt t args nonces = .ok nonces' := by
  intro args
  have hfirst : consumeAt 100 args .empty = .ok _ :=
    consumeAt_eq_ok_iff.2 ⟨⟨.fin 100, by decide +kernel⟩, ExpiringSet.enter_eq_some.2 ⟨rfl, rfl⟩⟩
  exact ⟨_, hfirst, (consumeAt_again_iff hfirst).2 (by decide +kernel)⟩

section Pools

variable {ι : Type} [DecidableEq ι] {crypto : Crypto} {clock : ℕ → ℚ}

abbrev AuthPool (ι : Type) := Pool ι World AuthOp AuthOp.Ans Error Unit

def AuthPool.start (u : UnicodeData) (crypto : Crypto) (calls : ι → AuthCall) (w : World) :
    AuthPool ι :=
  ⟨w, fun i => (calls i).prog u crypto, []⟩

/-- The use of the nonce store that an entry of the log records, and whether it was
accepted. -/
def consumption? : (o : AuthOp) × o.Ans → Option (Consumption × Bool)
  | ⟨.consumeLocked args, (now, outcome)⟩ => some (⟨args, now⟩, outcome.isOk)
  | _ => none

def consumptions (log : List (ι × (o : AuthOp) × o.Ans)) : List (Consumption × Bool) :=
  log.filterMap fun e => consumption? e.2

variable (log : List (ι × (o : AuthOp) × o.Ans))

omit [DecidableEq ι] in
theorem consumptions_append (i : ι) (e : (o : AuthOp) × o.Ans) :
    consumptions (log ++ [(i, e)]) = consumptions log ++ (consumption? e).toList := by
  rw [consumptions, consumptions, filterMap_append, filterMap_cons, filterMap_nil]
  cases consumption? e <;> rfl

omit [DecidableEq ι] in
theorem consumptions_skip (i : ι) {o : AuthOp} (h : ∀ args, o ≠ .consumeLocked args) (x : o.Ans) :
    consumptions (log ++ [(i, ⟨o, x⟩)]) = consumptions log := by
  have hnone : consumption? ⟨o, x⟩ = none := by
    cases o with
    | consumeLocked args => exact absurd rfl (h args)
    | _ => rfl
  rw [consumptions_append, hnone, Option.toList_none, append_nil]

/-- The accepted use of the nonce store that an entry of the log records. -/
def accepted? (e : (o : AuthOp) × o.Ans) : Option Consumption :=
  (consumption? e).bind fun x => if x.2 then some x.1 else none

def accepted (log : List (ι × (o : AuthOp) × o.Ans)) : List Consumption :=
  log.filterMap fun e => accepted? e.2

omit [DecidableEq ι] in
theorem accepted_eq :
    accepted log = (consumptions log).filterMap fun x => if x.2 then some x.1 else none := by
  rw [consumptions, filterMap_filterMap]
  rfl

variable (clock) in
theorem seeSession_frame (sessionId : String) (check : ControlSession → Except Error Unit)
    (w : World) :
    ∃ sessions, ∃ tick ≥ w.tick,
      (seeSession clock sessionId check w).2 = { w with sessions := sessions, tick := tick } := by
  unfold seeSession
  split
  · exact ⟨_, _, le_rfl, rfl⟩
  · rename_i session _
    have hread : w.tick ≤ (unusable clock session w.tick).2 := by
      unfold unusable
      split
      · exact le_rfl
      · exact Nat.le_succ _
    simp only
    split
    · exact ⟨_, _, hread, rfl⟩
    · split
      · exact ⟨_, _, hread, rfl⟩
      · exact ⟨_, _, hread.trans (Nat.le_succ _), rfl⟩

variable (crypto clock) in
theorem exec_frame (o : AuthOp) (w : World) :
    w.tick ≤ (exec crypto clock o w).2.tick ∧
      ((∀ args, o ≠ .consumeLocked args) → (exec crypto clock o w).2.nonces = w.nonces) := by
  have hsee (sessionId : String) (check : ControlSession → Except Error Unit) :
      w.tick ≤ (seeSession clock sessionId check w).2.tick ∧
        ((∀ args, o ≠ .consumeLocked args) →
          (seeSession clock sessionId check w).2.nonces = w.nonces) := by
    obtain ⟨sessions, tick, htick, he⟩ := seeSession_frame clock sessionId check w
    rw [he]
    exact ⟨htick, fun _ => rfl⟩
  cases o with
  | touchSessionLocked sessionId | authenticateLocked sessionId => exact hsee sessionId _
  | consumeLocked args =>
    have hnow : w.tick ≤ (nowOrTime clock args.now w.tick).2 := by
      unfold nowOrTime
      split
      · split
        · exact Nat.le_succ _
        · exact le_rfl
      · exact Nat.le_succ _
    refine ⟨?_, fun h => absurd rfl (h args)⟩
    simp only [exec]
    split <;> exact hnow
  | touchDeviceLocked deviceId =>
    simp only [exec]
    split
    · exact ⟨le_rfl, fun _ => rfl⟩
    · split
      · exact ⟨le_rfl, fun _ => rfl⟩
      · exact ⟨Nat.le_succ _, fun _ => rfl⟩
  | revokeDeviceLocked | revokeSessionLocked =>
    simp only [exec]
    split <;> exact ⟨le_rfl, fun _ => rfl⟩
  | time | registerLocked => exact ⟨Nat.le_succ _, fun _ => rfl⟩
  | createSessionLocked => exact ⟨Nat.le_add_right _ 2, fun _ => rfl⟩
  | loadDevices | loadSessions | revokeForDeviceLocked => exact ⟨le_rfl, fun _ => rfl⟩

/-- The nonces of the pool and its log are those of a run of the expiring set. -/
structure Recorded (nonces₀ : NonceTable) (pool : AuthPool ι) : Prop where
  run : ExpiringSet.Run Consumption.attempt nonces₀ (consumptions pool.log) pool.state.nonces
  inWindow : ∀ c, (c, true) ∈ consumptions pool.log → c.InWindow

theorem Recorded.step {nonces₀ : NonceTable} {pool : AuthPool ι} (h : Recorded nonces₀ pool)
    (i : ι) : Recorded nonces₀ (pool.step (exec crypto clock) i) := by
  rcases pool.step_cases (exec crypto clock) i with he | ⟨o, k, _, he⟩
  · rwa [he]
  rw [he]
  by_cases hconsume : ∃ args, o = .consumeLocked args
  · obtain ⟨args, rfl⟩ := hconsume
    have hat := @consumeAt_eq_ok_iff (nowOrTime clock args.now pool.state.tick).1 args
      pool.state.nonces
    constructor
    · simp only [consumptions_append, exec]
      split
      · rename_i nonces hok
        exact h.run.admitted (hat.1 hok).2
      · exact h.run.refused
    · intro c hc
      simp only [consumptions_append, exec, mem_append] at hc
      rcases hc with hc | hc
      · exact h.inWindow c hc
      · split at hc
        · rename_i nonces hok
          simp only [consumption?, Option.toList_some, mem_singleton, Prod.mk.injEq] at hc
          rw [hc.1]
          exact (hat.1 hok).1
        · simp [consumption?, Except.toBool] at hc
  · rw [not_exists] at hconsume
    have hnonces := (exec_frame crypto clock o pool.state).2 hconsume
    have hlog := consumptions_skip pool.log i hconsume
    exact ⟨by rw [hlog]; exact hnonces ▸ h.run, by rw [hlog]; exact h.inWindow⟩

theorem recorded_run (crypto : Crypto) (clock : ℕ → ℚ) (u : UnicodeData) (calls : ι → AuthCall)
    (w : World) (schedule : List ι) :
    Recorded w.nonces ((AuthPool.start u crypto calls w).run (exec crypto clock) schedule) := by
  have hstart : Recorded w.nonces (AuthPool.start u crypto calls w) :=
    ⟨.nil, fun c hc => (nomatch hc)⟩
  generalize AuthPool.start u crypto calls w = pool at hstart ⊢
  induction schedule generalizing pool with
  | nil => exact hstart
  | cons i rest ih => exact ih _ (hstart.step i)

omit [DecidableEq ι] in
/-- Whatever is interleaved, two accepted uses of one signature do not occur when the
accepted timestamps are early. -/
theorem Recorded.pairwise {nonces₀ : NonceTable} {pool : AuthPool ι} (h : Recorded nonces₀ pool)
    (horder : ExpiringSet.InOrder Consumption.attempt (consumptions pool.log)) {skew : ℚ}
    (hearly : ∀ c ∈ accepted pool.log, (c.args.skewSeconds : ℚ) ≤ skew ∧ c.Early skew) :
    (accepted pool.log).Pairwise fun c d => ¬ c.SameSignature d := by
  have hmem (c : Consumption) : c ∈ accepted pool.log ↔ (c, true) ∈ consumptions pool.log := by
    simp [accepted_eq]
  rw [accepted_eq, pairwise_filterMap]
  refine (h.run.apart horder).imp_of_mem ?_
  rintro ⟨c, cok⟩ ⟨d, dok⟩ hc hd hapart c' hc' d' hd' hsame
  simp only [Option.ite_none_right_eq_some, Option.some.injEq] at hc' hd'
  obtain ⟨rfl, rfl⟩ := hc'
  obtain ⟨rfl, rfl⟩ := hd'
  have hle :=
    hapart rfl rfl (by simp only [Consumption.attempt, ConsumeArgs.key, hsame.1, hsame.2.1])
  have hlt := (hearly c ((hmem c).2 hc)).2.lt_of_inWindow (h.inWindow d hd) hsame.2.2
    (hearly d ((hmem d).2 hd)).1
  exact absurd hle (not_le.2 hlt)

end Pools

end OmniDoer.Auth
