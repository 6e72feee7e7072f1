import OmniDoer.Model.Pairing

/-! # Consuming a live code

A code is looked up by its hash, and the first row of the file with that hash decides. The
rows stand in the order of their ids and are never removed, while a new code is compared
only with the active ones. So a code pairs exactly when no row before its own has its
hash. -/

namespace OmniDoer.Pairing

open Py Effects Tables List PairingStore Table

variable {env : Env}

/-- The pairing as it is read back: `used` is computed again and the code is gone. -/
def PairingCode.reload (pairing : PairingCode) : PairingCode :=
  { pairing with code := "", used := exhausted pairing.useCount pairing.maxUses }

theorem loadPairings_savePairings (env : Env) (pairings : Pairings) :
    ∃ loaded, loadPairings env (some (savePairings pairings)) = .ok loaded ∧
      ∀ id, loaded.lookup id = (pairings.lookup id).map PairingCode.reload := by
  have hall : (savePairings pairings).rows.all RawPairing.hasHash = true := by
    rw [all_eq_true]
    intro raw hraw
    have hmem : raw ∈ pairings.rows.map PairingCode.toRaw := (perm_insertionSort _ _).mem_iff.1 hraw
    obtain ⟨pairing, -, rfl⟩ := mem_map.1 hmem
    rfl
  refine ⟨_, if_pos hall, fun id => ?_⟩
  rw [lookup_map, savePairings, lookup_sorted, lookup_map, Option.map_map]
  rfl

variable {pairings : Pairings} {pairing : PairingCode}

variable {file : Option RawPairings} (h : loadPairings env file = .ok pairings)

include h in
theorem reload_of_loaded {id : String}
    (hp : pairings.lookup id = some pairing) : pairing.reload = pairing := by
  cases file with
  | none =>
    obtain rfl := Except.ok.inj h
    cases hp
  | some raw =>
    rw [loadPairings] at h
    split at h
    · obtain rfl := Except.ok.inj h
      rw [lookup_map] at hp
      obtain ⟨row, -, rfl⟩ := Option.map_eq_some_iff.1 hp
      rfl
    · cases h

include h in
theorem map_reload_of_loaded (id : String) :
    (pairings.lookup id).map PairingCode.reload = pairings.lookup id := by
  cases hp : pairings.lookup id with
  | none => rfl
  | some pairing => rw [Option.map_some, reload_of_loaded h hp]

theorem reload_useOnce (hloaded : pairing.reload = pairing)
    (huses : pairing.useCount < pairing.maxUses) :
    (PairingStore.useOnce pairing).reload = PairingStore.useOnce pairing := by
  have hcode : pairing.code = "" := congrArg PairingCode.code hloaded.symm
  have hmax : ¬ pairing.maxUses = 0 := by omega
  simp [PairingCode.reload, useOnce, exhausted, hmax, hcode]

/-- The time that `now or time.time()` gives, and the readings made by then. -/
def readNow (env : Env) (now : Option ℚ) (tick : ℕ) : ℚ × ℕ :=
  match now with
  | some now => if now = 0 then (env.clock tick, tick + 1) else (now, tick)
  | none => (env.clock tick, tick + 1)

theorem run_nowOrTime (env : Env) (now : Option ℚ) (w : World) :
    (nowOrTime now).run (exec env) w =
      (.ok (readNow env now w.tick).1, { w with tick := (readNow env now w.tick).2 }) := by
  cases now with
  | none => rfl
  | some t =>
    by_cases ht : t = 0
    · simp only [nowOrTime, readNow, if_pos ht]
      rfl
    · simp only [nowOrTime, readNow, if_neg ht]
      rfl

/-- What `consume` answers: the first row with the hash decides. -/
def consumeAnswer (env : Env) (pairings : Pairings) (code : String) (time : ℚ) :
    Except Error PairingCode :=
  match pairings.rows.find? fun pairing => pairing.codeHash = pairingCodeHash env code with
  | none => .error ⟨.valueError, "invalid pairing code"⟩
  | some pairing =>
    if pairing.maxUses ≤ pairing.useCount then .error ⟨.valueError, "pairing code already used"⟩
    else if pairing.isExpired time then .error ⟨.valueError, "pairing code expired"⟩
    else .ok (PairingStore.useOnce pairing)

theorem run_consume {w : World}
    (h : loadPairings env w.file = .ok pairings) (code : String) (now : Option ℚ) :
    ∃ tick, (PairingStore.consume env code now).run (exec env) w =
      match consumeAnswer env pairings code (readNow env now w.tick).1 with
      | .error e => (.error e, { w with locked := false, tick := tick })
      | .ok pairing => (.ok pairing, { w with
          file := some (savePairings (pairings.insert pairing)), locked := false, tick :=
            tick }) := by
  have hload : loading.run (exec env) { w with locked := true } =
      (.ok pairings, { w with locked := true }) := by
    rw [loading, Prog.run_op, Prog.run_ofExcept]
    exact Prod.ext h rfl
  have hacquire : (exec env .acquire w).2 = { w with locked := true } := rfl
  rw [consume, lockedStateFile, Prog.run_between, hacquire, Prog.run_bind_ok hload]
  unfold consumeAnswer
  cases pairings.rows.find? fun pairing => pairing.codeHash = pairingCodeHash env code with
  | none => exact ⟨w.tick, rfl⟩
  | some pairing =>
    dsimp only
    by_cases hused : pairing.maxUses ≤ pairing.useCount
    · rw [if_pos hused, if_pos hused]
      exact ⟨w.tick, rfl⟩
    rw [if_neg hused, if_neg hused,
      Prog.run_bind_of_ok (congrArg Prod.fst (run_nowOrTime env now _)), run_nowOrTime]
    refine ⟨(readNow env now w.tick).2, ?_⟩
    cases pairing.isExpired (readNow env now w.tick).1 <;> rfl

/-- The answer is the pairing itself exactly when no row before it has its hash. -/
theorem consumeAnswer_eq_iff
    (hstored : pairings.lookup pairing.pairingId = some pairing) {code : String}
    (hhash : pairing.codeHash = pairingCodeHash env code) {time : ℚ}
    (hlive : pairing.isExpired time = false) (huses : pairing.useCount < pairing.maxUses) :
    consumeAnswer env pairings code time = .ok (PairingStore.useOnce pairing) ↔
      ∀ before after, pairings.rows = before ++ pairing :: after →
        ∀ other ∈ before, other.codeHash ≠ pairing.codeHash := by
  have hmem : pairing ∈ pairings.rows := (lookup_eq_some_iff.1 hstored).1
  constructor
  · intro h before after hrows other hother hsame
    cases hb : before.find? fun p => p.codeHash = pairingCodeHash env code with
    | none => exact absurd (hsame.trans hhash) (by simpa using find?_eq_none.1 hb other hother)
    | some found =>
      -- an earlier row with the hash is found first
      rw [consumeAnswer, hrows, find?_append, hb] at h
      dsimp only [Option.some_or] at h
      split_ifs at h
      have huse : useOnce found = useOnce pairing := Except.ok.inj h
      have hid : (useOnce found).pairingId = (useOnce pairing).pairingId := by
        rw [huse]
      have hnodup := pairings.nodup
      rw [hrows, map_append, nodup_append] at hnodup
      exact hnodup.2.2 _ (mem_map_of_mem (mem_of_find?_eq_some hb)) _ mem_cons_self hid
  · intro h
    obtain ⟨before, after, hrows⟩ := append_of_mem hmem
    have hfind : pairings.rows.find? (fun p => p.codeHash = pairingCodeHash env code) =
        some pairing := by
      rw [find?_eq_some_iff_append]
      refine ⟨by simpa using hhash, before, after, hrows, fun other hother => ?_⟩
      have hne := h before after hrows other hother
      rw [hhash] at hne
      simpa using hne
    simp [consumeAnswer, hfind, hlive, Nat.not_le.2 huses]

/-- For every state of the store and every time: a live pairing whose code is supplied is
paired, and its use count and nothing else goes up, exactly when no pairing before it in
the file has the hash of its code. -/
theorem live_code_pairs_iff (env : Env) (w : World) (pairings : Pairings)
    (hload : loadPairings env w.file = .ok pairings) (pairing : PairingCode)
    (hstored : pairings.lookup pairing.pairingId = some pairing) (generated code : String)
    (hgenerated : pairing.codeHash = pairingCodeHash env generated)
    (hcode : normalizePairingCode env code = normalizePairingCode env generated) (now : Option ℚ)
    (hlive : pairing.isExpired (readNow env now w.tick).1 = false)
    (huses : pairing.useCount < pairing.maxUses) :
    (((PairingStore.consume env code now).run (exec env) w).1 = .ok (PairingStore.useOnce pairing) ∧
      ∃ later, loadPairings env
        ((PairingStore.consume env code now).run (exec env) w).2.file = .ok later ∧
        ∀ id, later.lookup id =
          if id = pairing.pairingId then some (PairingStore.useOnce pairing)
          else pairings.lookup id) ↔
      ∀ before after, pairings.rows = before ++ pairing :: after →
        ∀ other ∈ before, other.codeHash ≠ pairing.codeHash := by
  have hhash : pairing.codeHash = pairingCodeHash env code := by
    rw [hgenerated, pairingCodeHash, pairingCodeHash, hcode]
  rw [← consumeAnswer_eq_iff hstored hhash hlive huses]
  obtain ⟨tick, hrun⟩ := run_consume hload code now
  rw [hrun]
  constructor
  · rintro ⟨hanswer, -⟩
    cases hconsume : consumeAnswer env pairings code (readNow env now w.tick).1 with
    | error e =>
      rw [hconsume] at hanswer
      cases hanswer
    | ok answer =>
      rw [hconsume] at hanswer
      exact hanswer
  · intro hanswer
    rw [hanswer]
    obtain ⟨later, hlater, hlookup⟩ :=
      loadPairings_savePairings env (pairings.insert (useOnce pairing))
    refine ⟨rfl, later, hlater, fun id => ?_⟩
    have hid : (useOnce pairing).pairingId = pairing.pairingId := rfl
    rw [hlookup, lookup_insert, hid]
    split
    · rw [Option.map_some, reload_useOnce (reload_of_loaded hload hstored) huses]
    · -- the other rows were loaded and are read back as they are
      rw [map_reload_of_loaded hload]

/-- Every drawing gives 123456. -/
def constantDraws (clock : ℕ → ℚ) : Env where
  sha256 := id
  isDigit := Char.isDigit
  isDigit_ascii := fun _ _ => rfl
  clock := clock
  draws := fun _ => 123456
  ids := fun n => if n = 0 then "pair_a" else "pair_b"
  brokerFingerprint := "aa"
  webBrokerFingerprint := "bb"

/-- A pairing for ten devices that lives until 300. -/
def livePairing : PairingCode where
  pairingId := "pair_a"
  codeHash := pairingCodeHash (constantDraws fun _ => 200) "123456"
  publicUrl := "https://c"
  brokerFingerprint := "aa"
  webBrokerFingerprint := "bb"
  expiresAt := 300
  code := ""
  used := false
  useCount := 0
  maxUses := 10
  createdAt := 200

def expiredPairing : PairingCode :=
  { livePairing with
    pairingId := "pair_0"
    codeHash := pairingCodeHash (constantDraws fun _ => 200) "654321"
    expiresAt := 100 }

/-- A pairing behind an expired one with another code is paired, also when its code is
typed with a hyphen. -/
theorem live_code_pairs_second :
    ((PairingStore.consume (constantDraws fun _ => 200) "123-456" (some 200)).run
      (exec (constantDraws fun _ => 200))
      ⟨some (savePairings ((Table.empty.insert expiredPairing).insert livePairing)), false,
        0, 0, 0⟩).1 =
      .ok (PairingStore.useOnce livePairing) := by
  have hload : loadPairings (constantDraws fun _ => 200)
      (some (savePairings ((empty.insert expiredPairing).insert livePairing))) =
        .ok ⟨[expiredPairing, livePairing], by decide +kernel⟩ := rfl
  refine ((live_code_pairs_iff (constantDraws fun _ => 200)
    ⟨some (savePairings ((empty.insert expiredPairing).insert livePairing)), false, 0, 0, 0⟩ _ hload
    livePairing (by decide +kernel) "123456" "123-456" rfl (by decide +kernel) (some 200)
    (by decide +kernel) (by decide)).2 ?_).1
  intro before after hrows other hother
  rcases before with _ | ⟨first, _ | ⟨second, rest⟩⟩
  · cases hother
  · cases mem_singleton.1 hother
    rw [← (cons.inj hrows).1]
    decide +kernel
  · simp at hrows

/-- A second pairing is given the code of an expired one that comes first in the file: it
lives until 300, nobody has used it, and at 200 its code is refused. -/
theorem live_code_refused :
    let env := constantDraws fun n => if n < 2 then 100 else 200
    let first := (create env "https://c" 10).run (exec env) ⟨none, false, 0, 0, 0⟩
    let second := (create env "https://c" 100).run (exec env) first.2
    (second.1.map fun pairing => (pairing.pairingId, pairing.code)) = .ok ("pair_b", "123456") ∧
      (second.1.map fun pairing => (pairing.expiresAt, pairing.useCount, pairing.maxUses)) =
        .ok (300, 0, 10) ∧
      ((consume env "123456" (some 200)).run (exec env) second.2).1 =
        .error ⟨.valueError, "pairing code expired"⟩ := by
  decide +kernel

end OmniDoer.Pairing
