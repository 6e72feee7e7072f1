import OmniDoer.Verification.Auth.NonceStore
import Mathlib.Data.List.Pairwise

/-! # How often a signed request is accepted

Calls of the control service are interleaved one locked section at a time. Each
authenticated request has used the nonce store once, so that what the nonce store
accepts at most once is authenticated at most once. -/

namespace OmniDoer.Auth

open Py Effects Tables List

section Pools

variable {ι : Type} [DecidableEq ι] {crypto : Crypto} {clock : ℕ → ℚ}

def AuthCall.Untimed : AuthCall → Prop
  | .consume args => args.now = none
  | _ => True

/-- The contract of a program that leaves the time of `consume` to the clock. -/
def untimed : Prog.Contract AuthOp AuthOp.Ans Unit where
  guar := fun _ o => ∀ args, o = .consumeLocked args → args.now = none
  rely := fun _ _ => True
  next := fun _ _ _ => ()

theorem op_untimed {α : Type} {o : AuthOp} (h : ∀ args, o ≠ .consumeLocked args)
    {k : o.Ans → AuthProg α} (hk : ∀ x, (k x).Returns untimed (fun _ _ => True) ()) :
    (Prog.op o k).Returns untimed (fun _ _ => True) () :=
  .op (fun args ho => absurd ho (h args)) fun x _ => hk x

theorem consume_untimed {args : ConsumeArgs} (h : args.now = none) :
    (DeviceNonceStore.consume args).Returns untimed (fun _ _ => True) () :=
  .op (by rintro _ ⟨rfl⟩; exact h) fun _ _ => .ofExcept fun _ _ => trivial

theorem authenticateSession_untimed (sessionId sessionToken : String) :
    (authenticateSession sessionId sessionToken).Returns untimed (fun _ _ => True) () :=
  .bind (op_untimed (by simp) fun _ => .ofExcept fun _ _ => trivial) fun _ _ _ =>
    .bind (op_untimed (by simp) fun _ => .ofExcept fun _ _ => trivial) fun _ _ _ => .pure trivial

theorem session_untimed (r : SignedRequest) : r.session.Returns untimed (fun _ _ => True) () := by
  unfold SignedRequest.session
  split
  · exact authenticateSession_untimed _ _
  split
  · refine .bind (op_untimed (by simp) fun sessions => ?_) fun _ session _ => ?_
    · split
      · exact .pure trivial
      · exact .raise
    · split
      · exact .raise
      · refine op_untimed (by simp) fun now => ?_
        split
        · exact .raise
        · exact .pure trivial
  · exact .raise

variable (u : UnicodeData)

theorem authenticateSigned_untimed (r : SignedRequest) :
    (authenticateSignedSessionRequest u crypto r).Returns untimed (fun _ _ => True) () := by
  refine .bind (session_untimed r) fun _ session _ => ?_
  split
  · exact .raise
  refine .bind (op_untimed (by simp) fun devices => ?_) fun _ device _ => ?_
  · split
    · exact .pure trivial
    · exact .raise
  refine .bind (.ofExcept fun _ _ => trivial) fun _ _ (_ : True) => ?_
  refine .bind (consume_untimed rfl) fun _ _ _ => ?_
  split
  · exact .bind (op_untimed (by simp) fun _ => .ofExcept fun _ _ => trivial) fun _ _ _ =>
      .bind (op_untimed (by simp) fun _ => .ofExcept fun _ _ => trivial) fun _ _ _ => .pure trivial
  · exact .pure trivial

theorem AuthCall.Untimed.prog_untimed {c : AuthCall} (h : c.Untimed) :
    (c.prog u crypto).Returns untimed (fun _ _ => True) () := by
  cases c with
  | consume args => exact consume_untimed h
  | authenticateSigned r => exact (authenticateSigned_untimed u r).map fun _ _ _ => trivial
  | authenticateSession sessionId token =>
    exact (authenticateSession_untimed sessionId token).map fun _ _ _ => trivial
  | register | createSession | revokeForDevice =>
    exact Prog.Returns.map (op_untimed (by simp) fun _ => .pure trivial) fun _ _ _ => trivial
  | revokeDevice | revokeSession =>
    exact Prog.Returns.map (op_untimed (by simp) fun _ => .ofExcept fun _ _ => trivial)
      fun _ _ _ => trivial

variable (crypto) in
theorem exec_consume_untimed {args : ConsumeArgs} (h : args.now = none) (w : World) :
    (exec crypto clock (.consumeLocked args) w).1.1 = clock w.tick ∧
      (exec crypto clock (.consumeLocked args) w).2.tick = w.tick + 1 := by
  simp only [exec, nowOrTime, h]
  split <;> exact ⟨rfl, rfl⟩

/-- The uses of the nonce store follow the clock. -/
structure Timed (clock : ℕ → ℚ) (pool : AuthPool ι) : Prop where
  honest : pool.Honest (fun _ => untimed) (fun _ _ r => ∀ a, r = .ok a → True) ()
  inOrder : ExpiringSet.InOrder Consumption.attempt (consumptions pool.log)
  past : ∀ x ∈ consumptions pool.log, ∃ k < pool.state.tick, x.1.now = clock k

theorem Timed.step (hmono : Monotone clock) {pool : AuthPool ι} (h : Timed clock pool) (i : ι) :
    Timed clock (pool.step (exec crypto clock) i) := by
  have hhonest := h.honest.step (exec crypto clock) i fun _ _ => trivial
  rcases pool.step_cases (exec crypto clock) i with he | ⟨o, k, ht, he⟩
  · rwa [he]
  have htick := (exec_frame crypto clock o pool.state).1
  have hpast : ∀ x ∈ consumptions pool.log, ∃ k < (exec crypto clock o pool.state).2.tick,
      x.1.now = clock k := by
    intro x hx
    obtain ⟨k, hk, hnow⟩ := h.past x hx
    exact ⟨k, hk.trans_le htick, hnow⟩
  by_cases hconsume : ∃ args, o = .consumeLocked args
  · obtain ⟨args, rfl⟩ := hconsume
    have huntimed : args.now = none := by
      have hi := h.honest i
      rw [ht] at hi
      exact hi.1 args rfl
    obtain ⟨hnow, hnext⟩ := exec_consume_untimed crypto huntimed pool.state
    generalize exec crypto clock (.consumeLocked args) pool.state = answer at *
    obtain ⟨⟨now, outcome⟩, w⟩ := answer
    refine ⟨hhonest, ?_, ?_⟩
    · rw [he]
      simp only [consumptions_append]
      refine pairwise_append.2 ⟨h.inOrder, pairwise_singleton .., ?_⟩
      intro x hx y hy
      obtain ⟨k, hk, hxnow⟩ := h.past x hx
      rw [mem_singleton.1 hy]
      exact (hxnow.trans_le (hmono hk.le)).trans_eq hnow.symm
    · rw [he]
      simp only [consumptions_append, consumption?, Option.toList_some, mem_append, mem_singleton]
      rintro x (hx | rfl)
      · exact hpast x hx
      · exact ⟨pool.state.tick, hnext ▸ Nat.lt_succ_self _, hnow⟩
  · rw [not_exists] at hconsume
    have hlog := consumptions_skip pool.log i hconsume
    exact ⟨hhonest, by rw [he, hlog]; exact h.inOrder, by rw [he, hlog]; exact hpast⟩

/-- Under a clock that never goes back the times of the nonce store do not either, in any
interleaving of calls that leave the time to the clock. -/
theorem inOrder_of_monotone (crypto : Crypto) (hmono : Monotone clock)
    {calls : ι → AuthCall} (hcalls : ∀ i, (calls i).Untimed) (w : World) (schedule : List ι) :
    ExpiringSet.InOrder Consumption.attempt
      (consumptions ((AuthPool.start u crypto calls w).run (exec crypto clock) schedule).log) := by
  have hstart : Timed clock (AuthPool.start u crypto calls w) :=
    ⟨fun i => (hcalls i).prog_untimed u, Pairwise.nil, fun x hx => (nomatch hx)⟩
  generalize AuthPool.start u crypto calls w = pool at hstart ⊢
  induction schedule generalizing pool with
  | nil => exact hstart.inOrder
  | cons i rest ih => exact ih _ (hstart.step hmono i)

end Pools

def SignedRequest.SingleLines (u : UnicodeData) (r : SignedRequest) : Prop :=
  ∀ s ∈ r.lines u, '\n' ∉ s.toList

theorem authenticateSigned_returns (u : UnicodeData) (crypto : Crypto) (r : SignedRequest)
    (done : List ((o : AuthOp) × o.Ans)) :
    (authenticateSignedSessionRequest u crypto r).Returns Pool.recording
      (fun done' _ => ∃ now, ⟨.consumeLocked r.consumeArgs, (now, .ok ())⟩ ∈ done') done := by
  refine .bind (Pool.returns_recording r.session done) fun done session _ => ?_
  split
  · exact .raise
  refine .bind (Pool.returns_recording _ done) fun done device _ => ?_
  refine .bind (Pool.returns_recording _ done) fun done _ _ => ?_
  have hconsume : (DeviceNonceStore.consume r.consumeArgs).Returns Pool.recording
      (fun done' _ => ∃ now, ⟨.consumeLocked r.consumeArgs, (now, .ok ())⟩ ∈ done') done := by
    refine .op trivial ?_
    rintro ⟨now, outcome⟩ _
    refine .ofExcept ?_
    rintro _ rfl
    exact ⟨now, mem_append_right _ (mem_singleton_self _)⟩
  refine .bind hconsume ?_
  rintro done _ ⟨now, hmem⟩
  exact (Pool.returns_recorded _ hmem).mono fun done' _ h => ⟨now, h⟩

section Result

variable {ι : Type} [DecidableEq ι]

def AuthPool.after (u : UnicodeData) (crypto : Crypto) (clock : ℕ → ℚ) (calls : ι → AuthCall)
    (w : World) (schedule : List ι) : AuthPool ι :=
  (AuthPool.start u crypto calls w).run (exec crypto clock) schedule

/-- The log of a pool shows the accepted use of the nonce store behind every request that
was authenticated. -/
theorem exists_consumption_of_returned {u : UnicodeData} {crypto : Crypto} {clock : ℕ → ℚ}
    {calls : ι → AuthCall} {w : World} {schedule : List ι} {i : ι} {r : SignedRequest}
    (hcall : calls i = .authenticateSigned r)
    (hreturned : ((AuthPool.after u crypto clock calls w schedule).threads i).returned = some ()) :
    ∃ now, (i, ⟨.consumeLocked r.consumeArgs, (now, .ok ())⟩) ∈
      (AuthPool.after u crypto clock calls w schedule).log := by
  have hprogs (j : ι) : ((AuthPool.start u crypto calls w).threads j).Returns Pool.recording
      (fun done _ => ∀ r, calls j = .authenticateSigned r →
        ∃ now, ⟨.consumeLocked r.consumeArgs, (now, .ok ())⟩ ∈ done) [] := by
    cases hj : calls j with
    | authenticateSigned r' =>
      simp only [AuthPool.start, hj]
      refine Prog.Returns.map (authenticateSigned_returns u crypto r' []) ?_
      rintro done _ hdone r ⟨rfl⟩
      exact hdone
    | _ => exact (Pool.returns_recording _ []).mono fun _ _ _ r hr => (nomatch hr)
  obtain ⟨now, hmem⟩ :=
    Pool.post_of_recorded (exec crypto clock) rfl hprogs schedule hreturned r hcall
  exact ⟨now, (Pool.mem_recorded_iff i _ _).1 hmem⟩

/-- In every interleaving of calls of the three stores whose times do not go back, and in
which every accepted timestamp is early, no signature is accepted twice, and no two calls
authenticate one signed message. -/
theorem signature_accepted_once (u : UnicodeData) (crypto : Crypto) (clock : ℕ → ℚ)
    (calls : ι → AuthCall) (w : World) (schedule : List ι) (skew : ℚ)
    (horder : ExpiringSet.InOrder Consumption.attempt
      (consumptions (AuthPool.after u crypto clock calls w schedule).log))
    (hearly : ∀ c ∈ accepted (AuthPool.after u crypto clock calls w schedule).log,
      (c.args.skewSeconds : ℚ) ≤ skew ∧ c.Early skew) :
    ((accepted (AuthPool.after u crypto clock calls w schedule).log).Pairwise
      fun c d => ¬ c.SameSignature d) ∧
    ∀ i j r r', i ≠ j → calls i = .authenticateSigned r → calls j = .authenticateSigned r' →
      ((AuthPool.after u crypto clock calls w schedule).threads i).returned = some () →
      ((AuthPool.after u crypto clock calls w schedule).threads j).returned = some () →
      r.lines u ≠ r'.lines u ∧
        (r.SingleLines u → r'.SingleLines u →
          r.deviceSignatureMessage u ≠ r'.deviceSignatureMessage u) := by
  have hpairwise := (recorded_run crypto clock u calls w schedule).pairwise horder hearly
  refine ⟨hpairwise, ?_⟩
  intro i j r r' hij hi hj hri hrj
  have hlines : r.lines u ≠ r'.lines u := by
    intro heq
    obtain ⟨now, hmem⟩ := exists_consumption_of_returned hi hri
    obtain ⟨now', hmem'⟩ := exists_consumption_of_returned hj hrj
    have hsame : Consumption.SameSignature ⟨r.consumeArgs, now⟩ ⟨r'.consumeArgs, now'⟩ := by
      simp only [SignedRequest.lines, cons.injEq, and_true, true_and] at heq
      exact ⟨heq.1, heq.2.2.2.2.2, heq.2.2.2.2.1⟩
    rw [accepted, pairwise_filterMap] at hpairwise
    have hsymm : Std.Symm fun e e' : ι × (o : AuthOp) × o.Ans =>
        ∀ c, accepted? e.2 = some c → ∀ d, accepted? e'.2 = some d → ¬ c.SameSignature d :=
      ⟨fun e e' h c hc d hd hcd => h d hd c hc hcd.symm⟩
    have hne : (i, (⟨.consumeLocked r.consumeArgs, (now, .ok ())⟩ : (o : AuthOp) × o.Ans)) ≠
        (j, ⟨.consumeLocked r'.consumeArgs, (now', .ok ())⟩) :=
      fun he => hij (congrArg Prod.fst he)
    exact hpairwise.forall hmem hmem' hne _ rfl _ rfl hsame
  refine ⟨hlines, fun hr hr' hmessage => hlines ?_⟩
  exact intercalate_inj (c := '\n') rfl hr hr' (by simp [SignedRequest.lines])
    (by simp [SignedRequest.lines])
    (String.toByteArray_inj.1 hmessage)

end Result

def acceptingCrypto : Crypto := ⟨id, fun _ _ _ => .ok ()⟩

/-- One paired device with one session. -/
def pairedWorld : World where
  devices := Table.empty.insert ⟨"dev", "phone", "key", "", false, 0, none⟩
  sessions :=
    Table.empty.insert
      ⟨"sess", "dev", hashSessionToken acceptingCrypto "tok", "csrf", 10 ^ 9, false, 0, none⟩
  nonces := .empty
  tick := 0

def signedPost (timestamp nonce : String) : AuthCall :=
  .authenticateSigned
    { sessionId := "sess", sessionToken := "tok", deviceId := "dev", method := "post"
      path := "/api/requests", timestamp := timestamp, nonce := nonce, signature := "sig" }

/-- Two requests of a client whose clock is one second behind, and the first one again. -/
theorem signature_accepted_once_behind :
    let pool := AuthPool.after .ascii acceptingCrypto (fun n => 100 + n)
      (fun i : Fin 3 => signedPost "99" (if i = 1 then "b" else "a")) pairedWorld
      ((replicate 5 0) ++ (replicate 5 1) ++ (replicate 5 2))
    (accepted pool.log).length = 2 ∧ (accepted pool.log).Pairwise fun c d => ¬ c.SameSignature d :=
  ⟨by decide +kernel,
    (signature_accepted_once .ascii acceptingCrypto _ _ pairedWorld _ 300
      (by decide +kernel) (by decide +kernel)).1⟩

theorem inOrder_of_ticking :
    ExpiringSet.InOrder Consumption.attempt
      (consumptions (AuthPool.after .ascii acceptingCrypto (fun n => 100 + n)
      (fun _ : Fin 2 => signedPost "99" "a") pairedWorld [0, 1, 0, 0, 1, 1, 1, 0, 0]).log) := by
  have hmono : Monotone fun n : ℕ => (100 + n : ℚ) := by
    intro m n hmn
    simpa using hmn
  exact inOrder_of_monotone .ascii acceptingCrypto hmono (by intro _; trivial) pairedWorld _

/-- A request whose timestamp is the time of the server is accepted again when its nonce
has been kept for as long as the timestamp is acceptable. -/
theorem signature_replayed :
    let pool := AuthPool.after .ascii acceptingCrypto (fun n => if n < 4 then 100 else 400)
      (fun _ : Fin 2 => signedPost "100" "a") pairedWorld
      ((replicate 5 0) ++ (replicate 5 1))
    ExpiringSet.InOrder Consumption.attempt (consumptions pool.log) ∧
      (pool.threads 0).returned = some () ∧ (pool.threads 1).returned = some () ∧
      ¬ (accepted pool.log).Pairwise fun c d => ¬ c.SameSignature d := by
  decide +kernel

end OmniDoer.Auth
