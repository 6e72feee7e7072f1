import OmniDoer.Model.RateLimit
import Mathlib.Data.List.Induction

/-! # What the limiter lets through

A log of the calls tells what the buckets hold: of the attempts that still count, exactly
those that succeeded. So few successes lie in a window that ends with one of them, and every
window holds no more than the one that ends with its last success. Rounding is monotone and
leaves floats as they are, so it drops no attempt of a window too early. -/

namespace OmniDoer.RateLimit

open List Py

/-- A call at a positive time that a float holds, with the reading of the clock that it could
make. -/
structure Call where
  key : String
  now : ℚ
  clock : Double
  pos : 0 < now
  held : Double.ofRat now = .fin now

structure Entry extends Call where
  outcome : Except PermissionError Unit

def stepCall (s : RateLimiter × List Entry) (c : Call) : RateLimiter × List Entry :=
  let (outcome, limiter) := s.1.checkAndRecord c.key c.clock (some (.fin c.now))
  (limiter, s.2 ++ [⟨c, outcome⟩])

def runCalls (limiter : RateLimiter) (calls : List Call) : RateLimiter × List Entry :=
  calls.foldl stepCall (limiter, [])

def Entry.succeeds (key : String) (e : Entry) : Bool := e.key == key && e.outcome.isOk

/-- The times of the calls for the key that succeeded. -/
def successes (key : String) (log : List Entry) : List ℚ :=
  (log.filter (Entry.succeeds key)).map (·.now)

theorem held_of_mem_successes (key : String) (log : List Entry) {t : ℚ}
    (h : t ∈ successes key log) :
    Double.ofRat t = .fin t := by
  obtain ⟨e, -, rfl⟩ := mem_map.1 h
  exact e.held

theorem successes_concat (key : String) (log : List Entry) (e : Entry) :
    successes key (log ++ [e]) = successes key log ++ if e.succeeds key then [e.now] else [] := by
  rw [successes, filter_append, map_append]
  by_cases he : e.succeeds key = true <;> simp [successes, he]

/-- The time until which a call that finds no room locks its key. -/
def lockedFrom (L now : ℚ) : Double := (Double.fin now).add (.fin L)

section Calls

variable {limiter : RateLimiter} {log : List Entry} {c : Call} {key : String} {W L : ℚ}

theorem checkAndRecord_cases (limiter : RateLimiter) (c : Call) :
    let bucket := limiter.buckets c.key
    let now := Double.fin c.now
    let kept := limiter.inWindow now bucket.attempts
    let result := limiter.checkAndRecord c.key c.clock (some now)
    result = (.error .locked, limiter) ∨
    (now.lt bucket.lockedUntil = false ∧ result = (.error .exceeded,
      limiter.setBucket c.key ⟨kept, now.add (.ofRat limiter.lockoutSeconds)⟩)) ∨
    (now.lt bucket.lockedUntil = false ∧ kept.length < limiter.maxAttempts ∧
      result = (.ok (), limiter.setBucket c.key ⟨kept ++ [now], bucket.lockedUntil⟩)) := by
  intro bucket now kept result
  have hnow : RateLimiter.nowOrTime c.clock (some now) = now :=
    if_neg (by simp [now, Double.eq_fin_iff, c.pos.ne'])
  simp only [result, RateLimiter.checkAndRecord, RateLimiter.check, hnow]
  by_cases hlocked : now.lt bucket.lockedUntil = true
  · exact .inl (by rw [if_pos hlocked])
  · rw [if_neg hlocked]
    rw [Bool.not_eq_true] at hlocked
    by_cases hfull : limiter.maxAttempts ≤ kept.length
    · exact .inr (.inl ⟨hlocked, by rw [if_pos hfull]⟩)
    · refine .inr (.inr ⟨hlocked, not_le.1 hfull, ?_⟩)
      rw [if_neg hfull]
      simp [RateLimiter.recordFailure, RateLimiter.setBucket, RateLimiter.inWindow, hnow,
        kept, bucket]

/-- What a log says of the buckets, and what the limiter promises of the log. -/
structure Kept (limiter : RateLimiter) (W L : ℚ) (log : List Entry) : Prop where
  attempts : ∀ key now, (∀ e ∈ log, e.now ≤ now) →
    limiter.inWindow (.fin now) (limiter.buckets key).attempts =
      limiter.inWindow (.fin now) ((successes key log).map .fin)
  locked : ∀ e ∈ log, e.outcome = .error .exceeded →
    (lockedFrom L e.now).le (limiter.buckets e.key).lockedUntil = true
  bounded : ∀ key start, ((successes key log).countP fun t : ℚ =>
    start ≤ t ∧ t ≤ start + W) ≤ limiter.maxAttempts
  heldBack : log.Pairwise fun e e' : Entry => e.outcome = .error .exceeded → e'.key = e.key →
    e'.outcome = .ok () → (lockedFrom L e.now).le (.fin e'.now) = true

variable (hW : Double.ofRat limiter.windowSeconds = .fin W)
include hW

theorem inWindow_eq (now : ℚ) (attempts : List Double) :
    limiter.inWindow (.fin now) attempts = attempts.filter (Double.ofRat (now - W)).le := by
  rw [RateLimiter.inWindow, hW]
  rfl

theorem inWindow_inWindow {now now' : ℚ} (h : now ≤ now') (attempts : List Double) :
    limiter.inWindow (.fin now') (limiter.inWindow (.fin now) attempts) =
      limiter.inWindow (.fin now') attempts := by
  simp only [inWindow_eq hW, filter_filter]
  refine filter_congr fun t _ => ?_
  rw [Bool.and_eq_left_iff_imp]
  exact Double.le_trans (Double.ofRat_mono (sub_le_sub_right h W))

/-- A window that the call lies in holds no success that the bucket has dropped. -/
theorem countP_le_inWindow {start now : ℚ} (h : now ≤ start + W) {times : List ℚ}
    (hheld : ∀ t ∈ times, Double.ofRat t = .fin t) :
    (times.countP fun t => start ≤ t ∧ t ≤ start + W) ≤
      (limiter.inWindow (.fin now) (times.map .fin)).length := by
  rw [inWindow_eq hW, filter_map, length_map, ← countP_eq_length_filter]
  refine countP_mono_left fun t ht hin => ?_
  simp only [decide_eq_true_eq] at hin
  rw [Function.comp_apply, ← hheld t ht]
  exact Double.ofRat_mono (by linarith [hin.1])

theorem Kept.concat (h : Kept limiter W L log) {buckets : String → RateLimitBucket} {e : Entry}
    (htime : ∀ e' ∈ log, e'.now ≤ e.now)
    (hattempts : ∀ key now, e.now ≤ now → limiter.inWindow (.fin now) (buckets key).attempts =
      limiter.inWindow (.fin now)
        ((limiter.buckets key).attempts ++ if e.succeeds key then [.fin e.now] else []))
    (hlocked : ∀ e' ∈ log ++ [e], e'.outcome = .error .exceeded →
      (lockedFrom L e'.now).le (buckets e'.key).lockedUntil = true)
    (hok : e.outcome = .ok () →
      (Double.fin e.now).lt (limiter.buckets e.key).lockedUntil = false ∧
      (limiter.inWindow (.fin e.now) (limiter.buckets e.key).attempts).length <
        limiter.maxAttempts) :
    Kept { limiter with buckets } W L (log ++ [e]) := by
  refine ⟨fun key now hnow => ?_, hlocked, fun key start => ?_, ?_⟩
  · have hlast := hnow e (by simp)
    have hold := h.attempts key now fun e' he' => hnow e' (by simp [he'])
    simp only [RateLimiter.inWindow] at hattempts hold ⊢
    rw [hattempts key now hlast, successes_concat, map_append, filter_append, filter_append, hold]
    split <;> rfl
  · dsimp only
    rw [successes_concat, countP_append]
    have hbefore := h.bounded key start
    by_cases hnew : e.succeeds key = true ∧ e.now ≤ start + W
    · -- the window ends after the new success, which had few before it
      obtain ⟨hkey, hout⟩ : e.key = key ∧ e.outcome = .ok () := by
        obtain ⟨c, _ | _⟩ := e <;> simp_all [Entry.succeeds, Except.isOk, Except.toBool]
      subst hkey
      have hfew := (hok hout).2
      rw [h.attempts e.key e.now htime] at hfew
      have hcount := countP_le_inWindow hW hnew.2 fun t => held_of_mem_successes e.key log
      rw [if_pos hnew.1]
      have hone := countP_le_length (p := fun t => start ≤ t ∧ t ≤ start + W) (l := [e.now])
      simp only [length_singleton] at hone
      omega
    · have hnone : (if e.succeeds key then [e.now] else []).countP
          (fun t => start ≤ t ∧ t ≤ start + W) = 0 := by
        by_cases hs : e.succeeds key = true
        · simpa [hs] using fun _ => not_le.1 fun h => hnew ⟨hs, h⟩
        · simp [hs]
      exact (congrArg _ hnone).trans_le hbefore
  · rw [pairwise_append]
    refine ⟨h.heldBack, pairwise_singleton _ _, fun e' he' last hlast hout hkey hlastOk => ?_⟩
    obtain rfl := mem_singleton.1 hlast
    have huntil := h.locked e' he' hout
    rw [← hkey] at huntil
    exact Double.le_of_not_lt huntil (hok hlastOk).1

theorem Kept.step (hL : Double.ofRat limiter.lockoutSeconds = .fin L) (h : Kept limiter W L log)
    (htime : ∀ e ∈ log, e.now ≤ c.now) :
    Kept (stepCall (limiter, log) c).1 W L (stepCall (limiter, log) c).2 := by
  rcases checkAndRecord_cases limiter c with hr | ⟨hle, hr⟩ | ⟨hle, hfew, hr⟩
  all_goals simp only [stepCall, hr]
  · refine h.concat hW (e := ⟨c, .error .locked⟩) htime ?_ (fun e he hout => ?_) nofun
    · simp [Entry.succeeds, Except.isOk, Except.toBool]
    · rcases mem_append.1 he with he | he
      · exact h.locked e he hout
      · rw [mem_singleton.1 he] at hout
        cases hout
  · refine h.concat hW (e := ⟨c, .error .exceeded⟩) htime (fun key now hnow => ?_)
      (fun e he hout => ?_) nofun
    · rw [Function.update_apply]
      split <;> simp_all [Entry.succeeds, Except.isOk, Except.toBool, inWindow_inWindow hW hnow]
    · rw [Function.update_apply]
      split
      · rw [hL]
        rcases mem_append.1 he with he | he
        · exact Double.ofRat_mono (add_le_add_left (htime e he) L)
        · rw [mem_singleton.1 he]
          exact Double.ofRat_mono le_rfl
      · rename_i hkey
        rcases mem_append.1 he with he | he
        · exact h.locked e he hout
        · exact absurd (by rw [mem_singleton.1 he]) hkey
  · refine h.concat hW (e := ⟨c, .ok ()⟩) htime (fun key now hnow => ?_)
      (fun e he hout => ?_) fun _ => ⟨hle, hfew⟩
    · rw [Function.update_apply]
      split
      · have happend (l l' : List Double) : limiter.inWindow (.fin now) (l ++ l') =
            limiter.inWindow (.fin now) l ++ limiter.inWindow (.fin now) l' := filter_append ..
        simp_all [Entry.succeeds, Except.isOk, Except.toBool, inWindow_inWindow hW hnow]
      · rename_i hkey
        simp [Entry.succeeds, Ne.symm hkey]
    · rw [Function.update_apply]
      rcases mem_append.1 he with he | he
      · have hold := h.locked e he hout
        split <;> simp_all
      · rw [mem_singleton.1 he] at hout
        cases hout

omit hW

theorem stepCall_config (s : RateLimiter × List Entry) (c : Call) :
    (stepCall s c).1 = { s.1 with buckets := (stepCall s c).1.buckets } := by
  rcases checkAndRecord_cases s.1 c with hr | ⟨-, hr⟩ | ⟨-, -, hr⟩ <;>
    simp only [stepCall, hr] <;> rfl

theorem kept_runCalls (hW : Double.ofRat limiter.windowSeconds = .fin W)
    (hL : Double.ofRat limiter.lockoutSeconds = .fin L) (hnew : ∀ key, limiter.buckets key = {})
    {calls : List Call} (htime : calls.Pairwise fun c c' => c.now ≤ c'.now) :
    (runCalls limiter calls).1 = { limiter with buckets := (runCalls limiter calls).1.buckets } ∧
      (runCalls limiter calls).2.map Entry.toCall = calls ∧
      Kept (runCalls limiter calls).1 W L (runCalls limiter calls).2 := by
  induction calls using reverseRecOn with
  | nil =>
    refine ⟨rfl, rfl, fun key now _ => ?_, nofun, fun key start => Nat.zero_le _, .nil⟩
    simp [runCalls, hnew, successes]
  | append_singleton calls c ih =>
    rw [pairwise_append] at htime
    obtain ⟨hconfig, hcalls, hkept⟩ := ih htime.1
    rw [runCalls, foldl_append, ← runCalls]
    refine ⟨?_, by simpa [stepCall] using hcalls, hkept.step ?_ ?_ fun e he => ?_⟩
    · exact (stepCall_config _ c).trans (by rw [hconfig]; rfl)
    · rwa [hconfig]
    · rwa [hconfig]
    · exact htime.2.2 e.toCall (hcalls ▸ mem_map_of_mem he) c mem_cons_self

end Calls

/-- Calls at times that do not go back, for any keys: a window of `windowSeconds` has room for
`maxAttempts` successes of a key, and after a call that finds no room the key is locked until its
time plus `lockoutSeconds`, as the float sum. A call before the exact sum gets through only at the
float that the sum is rounded to. -/
theorem limiter_limits (maxAttempts : ℕ) (windowSeconds lockoutSeconds : ℤ) {W L : ℚ}
    (hW : Double.ofRat windowSeconds = .fin W) (hL : Double.ofRat lockoutSeconds = .fin L)
    {calls : List Call} (htime : calls.Pairwise fun c c' => c.now ≤ c'.now) :
    let log := (runCalls { maxAttempts, windowSeconds, lockoutSeconds } calls).2
    log.map Entry.toCall = calls ∧
      (∀ key start, ((successes key log).countP fun t : ℚ => start ≤ t ∧ t ≤ start + W) ≤
        maxAttempts) ∧
      log.Pairwise fun e e' : Entry => e.outcome = .error .exceeded → e'.key = e.key →
        ((Double.fin e'.now).lt (lockedFrom L e.now) = true → e'.outcome ≠ .ok ()) ∧
        (e'.now < e.now + L → .fin e'.now ≠ lockedFrom L e.now → e'.outcome ≠ .ok ()) := by
  intro log
  obtain ⟨hconfig, hcalls, hkept⟩ :=
    @kept_runCalls { maxAttempts, windowSeconds, lockoutSeconds } W L hW hL (fun _ => rfl) _ htime
  rw [hconfig] at hkept
  refine ⟨hcalls, hkept.bounded,
    hkept.heldBack.imp fun h hout hkey => ⟨fun hlt hok => ?_, fun hlt hne hok => ?_⟩⟩
  · have hle := h hout hkey hok
    rw [lockedFrom, Double.add, ← Double.lt_ofRat_eq_false_iff] at hle
    exact absurd (hlt.symm.trans hle) (by decide)
  · refine hne (Double.le_antisymm ?_ (h hout hkey hok))
    rename_i e e'
    rw [← e'.held]
    exact Double.ofRat_mono hlt.le

def callAt (key : String) (now : ℚ) (h : 0 < now ∧ Double.ofRat now = .fin now) : Call :=
  ⟨key, now, .fin 0, h.1, h.2⟩

/-- One attempt in ten seconds: the second call is refused, and so is one after the window. -/
theorem limiter_limits_locked :
    let calls := [callAt "a" 1 (by decide +kernel), callAt "a" 11 (by decide +kernel),
      callAt "b" 11 (by decide +kernel), callAt "a" 30 (by decide +kernel)]
    let log := (runCalls ⟨1, 10, 60, fun _ => {}⟩ calls).2
    log.map (fun e => e.outcome.isOk) = [true, false, true, false] ∧
      ∀ key start, ((successes key log).countP fun t => start ≤ t ∧ t ≤ start + 10) ≤ 1 := by
  intro calls log
  refine ⟨by decide +kernel, ?_⟩
  exact (limiter_limits 1 10 60 (show Double.ofRat (10 : ℤ) = .fin 10 by decide +kernel)
    (show Double.ofRat (60 : ℤ) = .fin 60 by decide +kernel) (by decide +kernel)).2.1

/-- One attempt in a minute: `0.7 + 300` is rounded down to `300.7`, and a call at `300.7` is let
through. -/
theorem rounded_lockout_ends_early :
    let early : ℚ := 3152519739159347 / 4503599627370496
    let late : ℚ := 5289970343555891 / 17592186044416
    let calls := [callAt "a" early (by decide +kernel), callAt "a" early (by decide +kernel),
      callAt "a" late (by decide +kernel)]
    late < early + 300 ∧ (runCalls { maxAttempts := 1 } calls).2.map (·.outcome) =
      [.ok (), .error .exceeded, .ok ()] := by
  decide +kernel

end OmniDoer.RateLimit
