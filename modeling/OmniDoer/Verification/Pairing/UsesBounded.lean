import Mathlib.Order.Interval.Finset.Nat
import OmniDoer.Verification.Pairing.LiveCode

/-! # Pairings under concurrent calls

Creating and consuming load and save the state file under its lock. Reading a pairing
saves the file without it. As long as such a save finds the file as it was loaded, it
changes nothing that is read back, so the saves under the lock add up: the counts of a
pairing only grow, by one with each device. -/

namespace OmniDoer.Pairing

open Py Effects Tables Option PairingStore Table

variable {env : Env}

def PairingCode.identity (pairing : PairingCode) : PairingCode :=
  { pairing with code := "", used := false, useCount := 0 }

/-- Every pairing is still there, with a count that has not gone down. -/
def Grows (before after : Pairings) : Prop :=
  ∀ id a, before.lookup id = some a →
    ∃ b, after.lookup id = some b ∧ a.identity = b.identity ∧ a.useCount ≤ b.useCount

theorem Grows.congr {before before' after : Pairings} (h : Grows before after)
    (heq : ∀ id, before.lookup id = before'.lookup id) : Grows before' after := by
  intro id a ha
  rw [← heq] at ha
  exact h id a ha

theorem grows_insert {before : Pairings} {pairing : PairingCode}
    (h : ∀ a, before.lookup pairing.pairingId = some a →
      a.identity = pairing.identity ∧ a.useCount ≤ pairing.useCount) :
    Grows before (before.insert pairing) := by
  intro id a ha
  rw [lookup_insert]
  split
  · rename_i hid
    exact ⟨pairing, rfl, h a (hid ▸ ha)⟩
  · exact ⟨a, ha, rfl, le_rfl⟩

theorem Grows.trans {a b c : Pairings} (hab : Grows a b) (hbc : Grows b c) : Grows a c := by
  intro id x hx
  obtain ⟨y, hy, hxy, hle⟩ := hab id x hx
  obtain ⟨z, hz, hyz, hle'⟩ := hbc id y hy
  exact ⟨z, hz, hxy.trans hyz, hle.trans hle'⟩

def uses (pairings : Pairings) (id : String) : ℕ := (pairings.lookup id).elim 0 PairingCode.useCount

theorem Grows.uses_le {before after : Pairings} (h : Grows before after) (id : String) :
    uses before id ≤ uses after id := by
  unfold uses
  cases hb : before.lookup id with
  | none => exact Nat.zero_le _
  | some a =>
    obtain ⟨b, hb', -, hle⟩ := h id a hb
    rw [hb']
    exact hle

def ReadBack (saved loaded : Pairings) : Prop :=
  ∀ id, loaded.lookup id = (saved.lookup id).map PairingCode.reload

theorem ReadBack.grows {saved loaded : Pairings} (h : ReadBack saved loaded) :
    Grows saved loaded := by
  intro id a ha
  refine ⟨a.reload, ?_, rfl, le_rfl⟩
  rw [h, ha]
  rfl

theorem uses_congr {a b : Pairings} (h : ∀ id, a.lookup id = b.lookup id) (id : String) :
    uses a id = uses b id := by
  rw [uses, uses, h]

theorem ReadBack.retired {file : Option RawPairings} {now before later : Pairings}
    (hnow : loadPairings env file = .ok now) (hsame : ∀ id, before.lookup id = now.lookup id)
    {pairing : PairingCode} (hstored : before.lookup pairing.pairingId = some pairing)
    (h : ReadBack (before.insert { pairing with used := true }) later) (id : String) :
    later.lookup id = now.lookup id := by
  rw [h, lookup_insert]
  split
  · rename_i hid
    have hfound : now.lookup id = some pairing := by
      rw [← hsame, hid]
      exact hstored
    rw [hfound]
    exact congrArg some (reload_of_loaded hnow hfound)
  · rw [hsame, map_reload_of_loaded hnow]

/-- What a thread remembers: whether it holds the lock, what it loaded last and has not
saved since, the identifier it was given, and what it saved over what. -/
structure Memory where
  held : Bool
  seen : Option Pairings
  issued : Option String
  wrote : Option (Pairings × Pairings)

def Memory.start : Memory := ⟨false, none, none, none⟩

def Memory.after (m : Memory) : (o : PairingOp) → o.Ans → Memory
  | .acquire, _ => { m with held := true }
  | .release, _ => { m with held := false }
  | .load, .ok pairings => { m with seen := some pairings }
  | .load, .error _ => m
  | .save pairings, _ =>
    { m with seen := none, wrote := m.seen.map fun before => (before, pairings) }
  | .time, _ => m
  | .randbelow, _ => m
  | .uuid, id => { m with issued := some id }

/-- The three changes of the store. Only the last is made without the lock. -/
inductive Change (m : Memory) (before : Pairings) : Pairings → Prop
  | used (pairing : PairingCode) (hheld : m.held = true)
      (hstored : before.lookup pairing.pairingId = some pairing)
      (huses : pairing.useCount < pairing.maxUses) :
      Change m before (before.insert (PairingStore.useOnce pairing))
  | added (pairing : PairingCode) (hheld : m.held = true)
      (hissued : m.issued = some pairing.pairingId) :
      Change m before (before.insert pairing)
  | retired (pairing : PairingCode) (hheld : m.held = false)
      (hstored : before.lookup pairing.pairingId = some pairing) :
      Change m before (before.insert { pairing with used := true })

/-- A thread takes the lock before it loads, loads at most until it is given an
identifier, and saves once, one of the changes. What it loads was in some file. -/
def sharing (env : Env) : Prog.Contract PairingOp PairingOp.Ans Memory where
  guar m
    | .acquire => m.held = false ∧ m.seen = none
    | .release => m.held = true
    | .load => m.issued = none ∧ m.wrote = none
    | .save pairings => m.wrote = none ∧ ∃ before, m.seen = some before ∧ Change m before pairings
    | .time => True
    | .randbelow => True
    | .uuid => m.held = true ∧ m.wrote = none ∧ m.seen.isSome = true
  rely
    | .load, .ok pairings => ∃ file, loadPairings env file = .ok pairings
    | _, _ => True
  next := Memory.after

/-- What a call that returns has saved. -/
def Saved (m : Memory) : Except Error PairingAnswer → Prop
  | .ok (.created pairing) => ∃ before, m.wrote = some (before, before.insert pairing)
  | .ok (.consumed pairing) =>
    ∃ before old, m.wrote = some (before, before.insert pairing) ∧
      pairing = PairingStore.useOnce old ∧ before.lookup old.pairingId = some old ∧
      old.useCount < old.maxUses
  | _ => True

section Calls

variable {α : Type} {post : Memory → Except Error α → Prop} {m : Memory}

variable (now : Option ℚ)

theorem nowOrTime_meets :
    (nowOrTime now).Meets (sharing env) (fun m' _ => m' = m) m := by
  unfold nowOrTime
  split
  · split
    · exact ⟨trivial, fun _ _ => rfl⟩
    · rfl
  · exact ⟨trivial, fun _ _ => rfl⟩

theorem activeHashes_meets (now : ℚ) (rows : List PairingCode) :
    (PairingStore.activeHashes now rows).Meets (sharing env) (fun m' _ => m' = m) m := by
  induction rows with
  | nil => rfl
  | cons item rest ih =>
    unfold activeHashes
    split
    · exact ih
    · refine Prog.Meets.bind (nowOrTime_meets (some now)) ?_ fun _ _ h => h
      rintro _ time rfl
      refine Prog.Meets.bind ih ?_ fun _ _ h => h
      rintro _ hashes rfl
      rfl

theorem drawCode_meets (active : List String) (attempts : ℕ) :
    (PairingStore.drawCode env active attempts).Meets (sharing env) (fun m' _ => m' = m) m := by
  induction attempts with
  | zero => rfl
  | succ attempts ih =>
    refine ⟨trivial, fun n _ => ?_⟩
    dsimp only
    split
    · exact ih
    · rfl

theorem quiet_bind {β : Type} {p : PairingProg β} {f : β → PairingProg α}
    (hp : p.Meets (sharing env) (fun m' _ => m' = m) m) (hf : ∀ b, (f b).Meets (sharing env) post m)
    (herr : ∀ e, post m (.error e)) : (p >>= f).Meets (sharing env) post m := by
  refine Prog.Meets.bind hp ?_ ?_
  · rintro _ b rfl
    exact hf b
  · rintro _ e rfl
    exact herr e

theorem loading_bind {f : Pairings → PairingProg α} (hissued : m.issued = none)
    (hwrote : m.wrote = none) (herr : ∀ e, post m (.error e))
    (hf : ∀ pairings, (f pairings).Meets (sharing env) post { m with seen := some pairings }) :
    (loading >>= f).Meets (sharing env) post m := by
  refine ⟨⟨hissued, hwrote⟩, fun answer _ => ?_⟩
  cases answer with
  | error e => exact herr e
  | ok pairings => exact hf pairings

theorem lockedStateFile_meets {body : PairingProg α} (hheld : m.held = false)
    (hseen : m.seen = none) (hpost : ∀ m r, post m r → post { m with held := false } r)
    (hbody : body.Meets (sharing env) (fun m r => m.held = true ∧
      post m r) { m with held := true }) :
    (lockedStateFile body).Meets (sharing env) post m :=
  Prog.Meets.between ⟨hheld, hseen⟩ (fun _ _ => hbody) fun m r h => ⟨h.1, fun _ _ => hpost m r h.2⟩

theorem create_meets (publicUrl : String) (ttlSeconds maxUses : ℤ) :
    (PairingStore.create env publicUrl ttlSeconds maxUses).Meets (sharing env)
      (fun m r => Saved m (r.map .created)) .start := by
  refine lockedStateFile_meets rfl rfl ?_ ?_
  · intro m r h
    cases r <;> exact h
  refine loading_bind rfl rfl (fun _ => ⟨rfl, trivial⟩) fun pairings => ?_
  refine quiet_bind (p := .op .time .pure) ⟨trivial, fun _ _ => rfl⟩ (fun now => ?_) fun _ =>
    ⟨rfl, trivial⟩
  refine quiet_bind (activeHashes_meets now pairings.rows) (fun active => ?_) fun _ =>
    ⟨rfl, trivial⟩
  refine quiet_bind (drawCode_meets active 20) (fun code => ?_) fun _ => ⟨rfl, trivial⟩
  refine ⟨⟨rfl, rfl, rfl⟩, fun id _ => ?_⟩
  refine quiet_bind (p := .op .time .pure) ⟨trivial, fun _ _ => rfl⟩ (fun createdAt => ?_) fun _ =>
    ⟨rfl, trivial⟩
  refine ⟨?_, fun _ _ => ?_⟩
  · exact ⟨rfl, pairings, rfl, .added _ rfl rfl⟩
  · exact ⟨rfl, pairings, rfl⟩

theorem consume_meets (code : String) :
    (PairingStore.consume env code now).Meets (sharing env)
      (fun m r => Saved m (r.map .consumed)) .start := by
  refine lockedStateFile_meets rfl rfl ?_ ?_
  · intro m r h
    cases r <;> exact h
  refine loading_bind rfl rfl (fun _ => ⟨rfl, trivial⟩) fun pairings => ?_
  cases hfind : pairings.rows.find? fun pairing => pairing.codeHash = pairingCodeHash env code with
  | none => exact ⟨rfl, trivial⟩
  | some pairing =>
    dsimp only
    split
    · exact ⟨rfl, trivial⟩
    rename_i huses
    refine quiet_bind (nowOrTime_meets now) (fun time => ?_) fun _ => ⟨rfl, trivial⟩
    split
    · exact ⟨rfl, trivial⟩
    have hstored : pairings.lookup pairing.pairingId = some pairing :=
      lookup_eq_some_iff.2 ⟨List.mem_of_find?_eq_some hfind, rfl⟩
    refine ⟨⟨rfl, pairings, rfl, .used pairing rfl hstored (not_le.1 huses)⟩, fun _ _ => ?_⟩
    exact ⟨rfl, pairings, pairing, rfl, rfl, hstored, not_le.1 huses⟩

theorem get_meets (pairingId : String) :
    (PairingStore.get pairingId now).Meets (sharing env)
      (fun m r => Saved m (r.map .got)) .start := by
  refine loading_bind rfl rfl (fun _ => trivial) fun pairings => ?_
  cases hlookup : pairings.lookup pairingId with
  | none => exact trivial
  | some pairing =>
    refine quiet_bind (nowOrTime_meets now) (fun time => ?_) fun _ => trivial
    split
    · have hstored : pairings.lookup pairing.pairingId = some pairing := by
        rw [key_of_lookup hlookup]
        exact hlookup
      exact ⟨⟨rfl, pairings, rfl, .retired pairing rfl hstored⟩, fun _ _ => trivial⟩
    · exact trivial

theorem PairingCall.meets (env : Env) (call : PairingCall) :
    (call.prog env).Meets (sharing env) Saved .start := by
  cases call with
  | create publicUrl ttlSeconds maxUses => exact (create_meets publicUrl ttlSeconds maxUses).map
  | consume code now => exact (consume_meets now code).map
  | get pairingId now => exact (get_meets now pairingId).map
  | list =>
    apply Prog.Meets.map
    exact loading_bind rfl rfl (fun _ => trivial) fun _ => trivial

end Calls

section Schedules

variable {ι : Type} [DecidableEq ι]

abbrev PairingPool (ι : Type) := Pool ι World PairingOp PairingOp.Ans Error PairingAnswer

def startPool (env : Env) (calls : ι → PairingCall) (w : World) : PairingPool ι where
  state := w
  threads := fun i => (calls i).prog env
  log := []

/-- What thread `i` remembers. -/
def memoryOf (pool : PairingPool ι) (i : ι) : Memory := Pool.memory Memory.after i .start pool.log

def locking : Locking PairingOp World Unit where
  action
    | .acquire => .acquire ()
    | .release => .release ()
    | _ => .none
  locked := fun w _ => w.locked

def SameRows (a b : Pairings) : Prop := (∀ x ∈ a.rows, x ∈ b.rows) ∧ ∀ x ∈ b.rows, x ∈ a.rows

instance (a b : Pairings) : Decidable (SameRows a b) := inferInstanceAs (Decidable (_ ∧ _))

def Unchanged (env : Env) (m : Memory) (file : Option RawPairings) : Prop :=
  match m.seen, loadPairings env file with
  | some seen, .ok loaded => SameRows seen loaded
  | _, _ => False

instance (m : Memory) (file : Option RawPairings) : Decidable (Unchanged env m file) := by
  unfold Unchanged
  split <;> infer_instance

/-- If thread `i` is about to save without the lock, the file has not changed since its
load. -/
def Current (env : Env) (pool : PairingPool ι) (i : ι) : Prop :=
  match pool.threads i with
  | .op (.save _) _ =>
    (memoryOf pool i).held = true ∨ Unchanged env (memoryOf pool i) pool.state.file
  | _ => True

instance (pool : PairingPool ι) (i : ι) : Decidable (Current env pool i) := by
  unfold Current
  split <;> infer_instance

/-- The identifier was issued by the first `n` answers. -/
def IssuedBy (env : Env) (n : ℕ) (id : String) : Prop := ∃ k < n, id = env.ids k

def heldLock (m : Memory) : Option Unit := if m.held then some () else none

/-- The saves add up. `initial` is the file at the start. -/
structure Kept (env : Env) (initial : Option RawPairings) (pool : PairingPool ι) : Prop where
  honest : pool.Honest (fun _ => sharing env) (fun _ => Saved) .start
  exclusive : Exclusive locking heldLock (fun _ => sharing env) .start pool
  /-- Under the lock the file is as it was loaded. -/
  fresh : ∀ i seen, (memoryOf pool i).held = true → (memoryOf pool i).seen = some seen →
    ∃ now, loadPairings env pool.state.file = .ok now ∧ ∀ id, seen.lookup id = now.lookup id
  issued : ∀ i id, (memoryOf pool i).issued = some id → IssuedBy env pool.state.issued id
  unissued : ∀ i id seen, (memoryOf pool i).issued = some id → (memoryOf pool i).seen = some seen →
    seen.lookup id = none
  known : ∀ now, loadPairings env pool.state.file = .ok now → ∀ id, (now.lookup id).isSome = true →
    IssuedBy env pool.state.issued id ∨
      ∃ first, loadPairings env initial = .ok first ∧ (first.lookup id).isSome = true
  grown : ∀ i before after, (memoryOf pool i).wrote = some (before, after) →
    ∃ now, loadPairings env pool.state.file = .ok now ∧ Grows after now
  distinct : ∀ i j beforeᵢ afterᵢ beforeⱼ afterⱼ, i ≠ j →
    (memoryOf pool i).wrote = some (beforeᵢ, afterᵢ) →
    (memoryOf pool j).wrote = some (beforeⱼ, afterⱼ) → ∀ id, uses beforeᵢ id < uses afterᵢ id →
    uses beforeⱼ id < uses afterⱼ id → uses afterᵢ id ≠ uses afterⱼ id

theorem disciplined_sharing (env : Env) : Disciplined locking heldLock (sharing env) where
  acquire m o l hguar haction := by
    cases o with
    | acquire => simp [heldLock, hguar.1]
    | _ => cases haction
  release m o l hguar haction := by
    cases o with
    | release =>
      have hheld : m.held = true := hguar
      simp [heldLock, hheld]
    | _ => cases haction
  next_acquire m o l x haction := by
    cases o with
    | acquire => rfl
    | _ => cases haction
  next_release m o l x haction := by
    cases o with
    | release => rfl
    | _ => cases haction
  next_none m o x haction := by
    cases o with
    | acquire | release => cases haction
    | load => cases x <;> rfl
    | save | time | randbelow | uuid => rfl

theorem locking_runs (env : Env) : locking.Runs (exec env) := by
  intro o w
  funext l
  cases o <;> rfl

theorem kept_start (env : Env) (calls : ι → PairingCall) (w : World) :
    Kept env w.file (startPool env calls w) where
  honest := fun i => (calls i).meets env
  exclusive := .start rfl rfl
  fresh := fun _ _ _ h => (nomatch h)
  issued := fun _ _ h => (nomatch h)
  unissued := fun _ _ _ h => (nomatch h)
  known := fun now hnow _ hid => .inr ⟨now, hnow, hid⟩
  grown := fun _ _ _ h => (nomatch h)
  distinct := fun _ _ _ _ _ _ _ h => (nomatch h)

theorem exec_rely (env : Env) (o : PairingOp) (w : World) :
    (sharing env).rely o (exec env o w).1 := by
  cases o with
  | load =>
    change (sharing env).rely .load (loadPairings env w.file)
    cases h : loadPairings env w.file with
    | error e => trivial
    | ok pairings => exact ⟨w.file, h⟩
  | _ => trivial

variable {pool : PairingPool ι} {i : ι}

theorem memoryOf_step (env : Env) {o : PairingOp}
    {k : o.Ans → PairingProg PairingAnswer} (ht : pool.threads i = .op o k) (j : ι) :
    memoryOf (pool.step (exec env) i) j =
      if j = i then (memoryOf pool i).after o (exec env o pool.state).1 else memoryOf pool j :=
  Pool.memory_step (exec env) ht (fun _ => sharing env) .start j

variable {m : Memory}

variable {o : PairingOp} (hm : (memoryOf pool i).after o (exec env o pool.state).1 = m)

include hm in
theorem memoryOf_step_cases {k : o.Ans → PairingProg PairingAnswer}
    (ht : pool.threads i = .op o k) (j : ι) :
    j = i ∧ memoryOf (pool.step (exec env) i) j = m ∨
      j ≠ i ∧ memoryOf (pool.step (exec env) i) j = memoryOf pool j := by
  rw [memoryOf_step env ht, hm]
  by_cases hj : j = i
  · exact .inl ⟨hj, if_pos hj⟩
  · exact .inr ⟨hj, if_neg hj⟩

variable {initial : Option RawPairings}

variable (h : Kept env initial pool)

include hm in
include h in
/-- A step that leaves the file alone, and with it what its thread has saved. -/
theorem Kept.unsaved {k : o.Ans → PairingProg PairingAnswer} (ht : pool.threads i = .op o k)
    (honest : (pool.step (exec env) i).Honest (fun _ => sharing env) (fun _ => Saved) .start)
    (exclusive : Exclusive locking heldLock (fun _ => sharing env) .start (pool.step (exec env) i))
    (hfile : (exec env o pool.state).2.file = pool.state.file)
    (hissued : pool.state.issued ≤ (exec env o pool.state).2.issued)
    (hfresh : ∀ seen, m.held = true → m.seen = some seen →
      (memoryOf pool i).held = true ∧ (memoryOf pool i).seen = some seen ∨
        loadPairings env pool.state.file = .ok seen)
    (hid : ∀ id, m.issued = some id → IssuedBy env (exec env o pool.state).2.issued id)
    (hunissued : ∀ id seen, m.issued = some id → m.seen = some seen → seen.lookup id = none)
    (hwrote : m.wrote = (memoryOf pool i).wrote) : Kept env initial (pool.step (exec env) i) := by
  have hstate : (pool.step (exec env) i).state = (exec env o pool.state).2 := by
    rw [Pool.step_of_op (exec env) ht]
  have hlater {id : String} (hid : IssuedBy env pool.state.issued id) :
      IssuedBy env (exec env o pool.state).2.issued id := by
    obtain ⟨n, hn, he⟩ := hid
    exact ⟨n, hn.trans_le hissued, he⟩
  have hsaved (j : ι) : (memoryOf (pool.step (exec env) i) j).wrote = (memoryOf pool j).wrote := by
    obtain ⟨rfl, hj⟩ | ⟨-, hj⟩ := memoryOf_step_cases hm ht j
    · rw [hj, hwrote]
    · rw [hj]
  refine ⟨honest, exclusive, ?_, ?_, ?_, ?_, ?_, ?_⟩
  · intro j seen hheld hseen
    rw [hstate, hfile]
    obtain ⟨-, hj⟩ | ⟨-, hj⟩ := memoryOf_step_cases hm ht j <;> rw [hj] at hheld hseen
    · rcases hfresh seen hheld hseen with ⟨hheld', hseen'⟩ | hload
      · exact h.fresh i seen hheld' hseen'
      · exact ⟨seen, hload, fun _ => rfl⟩
    · exact h.fresh j seen hheld hseen
  · intro j id hj
    rw [hstate]
    obtain ⟨-, he⟩ | ⟨-, he⟩ := memoryOf_step_cases hm ht j <;> rw [he] at hj
    · exact hid id hj
    · exact hlater (h.issued j id hj)
  · intro j id seen hj hseen
    obtain ⟨-, he⟩ | ⟨-, he⟩ := memoryOf_step_cases hm ht j <;> rw [he] at hj hseen
    · exact hunissued id seen hj hseen
    · exact h.unissued j id seen hj hseen
  · rw [hstate, hfile]
    exact fun now hnow id hid => (h.known now hnow id hid).imp_left hlater
  · intro j before after hj
    rw [hstate, hfile]
    exact h.grown j before after (hsaved j ▸ hj)
  · intro j j' _ _ _ _ hne hj hj'
    exact h.distinct j j' _ _ _ _ hne (hsaved j ▸ hj) (hsaved j' ▸ hj')

variable {pairings : Pairings} {k : (PairingOp.save pairings).Ans → PairingProg PairingAnswer}
  (ht : pool.threads i = .op (.save pairings) k)

include h in
include ht in
theorem Kept.seen_current (hcurrent : Current env pool i) :
    (memoryOf pool i).wrote = none ∧ ∃ before now, (memoryOf pool i).seen = some before ∧
      Change (memoryOf pool i) before pairings ∧
      loadPairings env pool.state.file = .ok now ∧ ∀ id, before.lookup id = now.lookup id := by
  have hguar := h.honest i
  rw [ht] at hguar
  obtain ⟨hwrote, before, hseen, hchange⟩ := hguar.1
  refine ⟨hwrote, before, ?_⟩
  by_cases hheld : (memoryOf pool i).held = true
  · obtain ⟨now, hnow, hsame⟩ := h.fresh i before hheld hseen
    exact ⟨now, hseen, hchange, hnow, hsame⟩
  · unfold Current at hcurrent
    rw [ht] at hcurrent
    have hunchanged : Unchanged env (memoryOf pool i) pool.state.file := hcurrent.resolve_left hheld
    have hseen : (memoryOf pool i).seen = some before := hseen
    unfold Unchanged at hunchanged
    rw [hseen] at hunchanged
    cases hnow : loadPairings env pool.state.file with
    | error e =>
      rw [hnow] at hunchanged
      exact hunchanged.elim
    | ok now =>
      rw [hnow] at hunchanged
      exact ⟨now, hseen, hchange, rfl, lookup_congr fun a => ⟨hunchanged.1 a, hunchanged.2 a⟩⟩

variable {before after : Pairings}

theorem Change.inserts (h : Change m before after) : ∃ pairing, after = before.insert pairing ∧
    (m.issued = some pairing.pairingId ∨ ∃ old, before.lookup pairing.pairingId = some old ∧
      old.identity = pairing.identity ∧ old.useCount ≤ pairing.useCount) := by
  cases h with
  | used pairing _ hstored _ => exact ⟨_, rfl, .inr ⟨pairing, hstored, rfl, Nat.le_succ _⟩⟩
  | added pairing _ hissued => exact ⟨_, rfl, .inl hissued⟩
  | retired pairing _ hstored => exact ⟨_, rfl, .inr ⟨pairing, hstored, rfl, le_rfl⟩⟩

theorem Change.grows (h : Change m before after)
    (hunissued : ∀ id, m.issued = some id → before.lookup id = none) : Grows before after := by
  obtain ⟨pairing, rfl, hissued | ⟨old, hold, hsame⟩⟩ := h.inserts
  · exact grows_insert fun a ha => nomatch (hunissued _ hissued).symm.trans ha
  · refine grows_insert fun a ha => ?_
    obtain rfl : old = a := some.inj (hold.symm.trans ha)
    exact hsame

theorem Change.isSome (h : Change m before after)
    {id : String} (hid : (after.lookup id).isSome = true) :
    m.issued = some id ∨ (before.lookup id).isSome = true := by
  obtain ⟨pairing, rfl, hknown⟩ := h.inserts
  rw [lookup_insert] at hid
  split at hid
  · rename_i he
    rcases hknown with hissued | ⟨old, hold, _⟩
    · exact .inl (he ▸ hissued)
    · rw [he, hold]
      exact .inr rfl
  · exact .inr hid

include h in
include ht in
/-- A save by thread `i`. -/
theorem Kept.save
    (honest : (pool.step (exec env) i).Honest (fun _ => sharing env) (fun _ => Saved) .start)
    (exclusive : Exclusive locking heldLock (fun _ => sharing env) .start (pool.step (exec env) i))
    (hcurrent : Current env pool i) : Kept env initial (pool.step (exec env) i) := by
  obtain ⟨hwrote, before, now, hseen, hchange, hnow, hsame⟩ := h.seen_current ht hcurrent
  obtain ⟨later, hlater, hread⟩ := loadPairings_savePairings env pairings
  have hread : ReadBack pairings later := hread
  have hfile : loadPairings env (pool.step (exec env) i).state.file = .ok later := by
    rw [Pool.step_of_op (exec env) ht]
    exact hlater
  have hissued : (pool.step (exec env) i).state.issued = pool.state.issued := by
    rw [Pool.step_of_op (exec env) ht]
    rfl
  have hm : (memoryOf pool i).after (.save pairings) (exec env (.save pairings) pool.state).1 =
      { memoryOf pool i with seen := none, wrote := some (before, pairings) } := by
    simp [Memory.after, hseen]
  have hgrows : Grows now later :=
    ((hchange.grows fun id hid => h.unissued i id before hid hseen).congr hsame).trans hread.grows
  -- what another thread has saved is behind what the file held
  have hbehind (j : ι) (before' after' : Pairings) (id : String)
      (hj : (memoryOf pool j).wrote = some (before', after'))
      (huses : uses before id < uses pairings id) : uses after' id < uses pairings id := by
    obtain ⟨now', hnow', hgrown⟩ := h.grown j before' after' hj
    obtain rfl := Except.ok.inj (hnow.symm.trans hnow')
    have hle := hgrown.uses_le id
    rw [← uses_congr hsame] at hle
    exact hle.trans_lt huses
  refine ⟨honest, exclusive, ?_, ?_, ?_, ?_, ?_, ?_⟩
  · intro j seen hheld hseenj
    obtain ⟨-, he⟩ | ⟨hj, he⟩ := memoryOf_step_cases hm ht j <;> rw [he] at hheld hseenj
    · cases hseenj
    cases hchange with
    | used _ hheldi | added _ hheldi =>
      exact absurd (h.exclusive.unique j i () (if_pos hheld) (if_pos hheldi)) hj
    | retired pairing _ hstored =>
      obtain ⟨now', hnow', hsame'⟩ := h.fresh j seen hheld hseenj
      obtain rfl := Except.ok.inj (hnow.symm.trans hnow')
      refine ⟨later, hfile, fun id => ?_⟩
      rw [hsame', hread.retired hnow hsame hstored]
  · intro j id hid
    rw [hissued]
    obtain ⟨-, he⟩ | ⟨-, he⟩ := memoryOf_step_cases hm ht j <;> rw [he] at hid
    · exact h.issued i id hid
    · exact h.issued j id hid
  · intro j id seen hid hseenj
    obtain ⟨-, he⟩ | ⟨-, he⟩ := memoryOf_step_cases hm ht j <;> rw [he] at hid hseenj
    · cases hseenj
    · exact h.unissued j id seen hid hseenj
  · intro now' hnow' id hid
    obtain rfl := Except.ok.inj (hfile.symm.trans hnow')
    rw [hissued]
    rw [hread, isSome_map] at hid
    rcases hchange.isSome hid with hid | hid
    · exact .inl (h.issued i id hid)
    · rw [hsame] at hid
      exact h.known now hnow id hid
  · intro j before' after' hj
    refine ⟨later, hfile, ?_⟩
    obtain ⟨-, he⟩ | ⟨-, he⟩ := memoryOf_step_cases hm ht j <;> rw [he] at hj
    · cases hj
      exact hread.grows
    · obtain ⟨now', hnow', hgrown⟩ := h.grown j before' after' hj
      obtain rfl := Except.ok.inj (hnow.symm.trans hnow')
      exact hgrown.trans hgrows
  · intro j j' _ _ _ _ hne hj hj' id hlt hlt'
    obtain ⟨hji, he⟩ | ⟨-, he⟩ := memoryOf_step_cases hm ht j <;> rw [he] at hj <;>
      obtain ⟨hji', he'⟩ | ⟨-, he'⟩ := memoryOf_step_cases hm ht j' <;> rw [he'] at hj'
    · exact absurd (hji.trans hji'.symm) hne
    · cases hj
      exact (hbehind j' _ _ id hj' hlt).ne'
    · cases hj'
      exact (hbehind j _ _ id hj hlt').ne
    · exact h.distinct j j' _ _ _ _ hne hj hj' id hlt hlt'

include h in
/-- One step of a permitted schedule whose saves without the lock are current. -/
theorem Kept.step (hids : Function.Injective env.ids)
    (hnew : ∀ first, loadPairings env initial = .ok first → ∀ n, first.lookup (env.ids n) = none)
    (hpermitted : Permitted locking pool i) (hcurrent : Current env pool i) :
    Kept env initial (pool.step (exec env) i) := by
  have honest := Pool.Honest.step (exec env) h.honest i fun o _ => exec_rely env o pool.state
  have exclusive := Exclusive.step (locking_runs env) (fun _ => disciplined_sharing env) h.exclusive
    h.honest hpermitted
  rcases pool.step_cases (exec env) i with he | ⟨o, k, ht, -⟩
  · rwa [he]
  have hguar := h.honest i
  rw [ht] at hguar
  cases o with
  | acquire =>
    refine h.unsaved rfl ht honest exclusive rfl le_rfl ?_ (h.issued i) (h.unissued i) rfl
    exact fun seen _ hseen => nomatch hguar.1.2.symm.trans hseen
  | release =>
    exact h.unsaved rfl ht honest exclusive rfl le_rfl (fun _ hheld _ => (nomatch hheld))
      (h.issued i) (h.unissued i) rfl
  | time | randbelow =>
    exact h.unsaved rfl ht honest exclusive rfl le_rfl (fun _ hheld hseen => .inl ⟨hheld, hseen⟩)
      (h.issued i) (h.unissued i) rfl
  | load =>
    have hload : (exec env .load pool.state).1 = loadPairings env pool.state.file := rfl
    cases hnow : loadPairings env pool.state.file with
    | error e =>
      exact h.unsaved (by rw [hload, hnow]; rfl) ht honest exclusive rfl le_rfl
        (fun _ hheld hseen => .inl ⟨hheld, hseen⟩) (h.issued i) (h.unissued i) rfl
    | ok now =>
      have hm : (memoryOf pool i).after .load (exec env .load pool.state).1 =
          { memoryOf pool i with seen := some now } := by
        rw [hload, hnow]
        rfl
      refine h.unsaved hm ht honest exclusive rfl le_rfl ?_ (h.issued i) ?_ rfl
      · exact fun seen _ hseen => .inr (some.inj hseen ▸ hnow)
      · exact fun id seen hid _ => nomatch hguar.1.1.symm.trans hid
  | save pairings => exact h.save ht honest exclusive hcurrent
  | uuid =>
    have hheld : (memoryOf pool i).held = true := hguar.1.1
    refine h.unsaved rfl ht honest exclusive rfl (Nat.le_succ _)
      (fun _ hheld hseen => .inl ⟨hheld, hseen⟩) ?_ ?_ rfl
    · exact fun id hid => ⟨pool.state.issued, Nat.lt_succ_self _, (some.inj hid).symm⟩
    · -- what the thread loaded under the lock is in the file, where the identifier is not
      intro id seen hid hseen
      obtain ⟨now, hnow, hloaded⟩ := h.fresh i seen hheld hseen
      rw [← some.inj hid, hloaded]
      by_contra hsome
      change now.lookup (env.ids pool.state.issued) ≠ none at hsome
      rcases h.known now hnow _ (isSome_iff_ne_none.2 hsome) with
        ⟨k, hk, hid⟩ | ⟨first, hfirst, hid⟩
      · exact absurd (hids hid) (by omega)
      · rw [hnew first hfirst] at hid
        cases hid

def poolAfter (env : Env) (calls : ι → PairingCall) (w : World) (schedule : List ι) :
    PairingPool ι :=
  (startPool env calls w).run (exec env) schedule

variable {pairing : PairingCode}

include h in
theorem Kept.consumed (hi : (pool.threads i).returned = some (.consumed pairing)) :
    ∃ before after, (memoryOf pool i).wrote = some (before, after) ∧
      after.lookup pairing.pairingId = some pairing ∧
      uses before pairing.pairingId + 1 = pairing.useCount ∧
      pairing.useCount ≤ pairing.maxUses := by
  obtain ⟨before, old, hwrote, rfl, hold, hlimit⟩ := Prog.Meets.post_of_returned (h.honest i) hi
  refine ⟨before, _, hwrote, ?_, ?_, hlimit⟩
  · rw [lookup_insert, if_pos rfl]
  · have hid : (useOnce old).pairingId = old.pairingId := rfl
    rw [uses, hid, hold]
    rfl

include h in
theorem Kept.stored (hwrote : (memoryOf pool i).wrote = some (before, after))
    (hsaved : after.lookup pairing.pairingId = some pairing) :
    ∃ now stored, loadPairings env pool.state.file = .ok now ∧
      now.lookup pairing.pairingId = some stored ∧ stored.identity = pairing.identity := by
  obtain ⟨now, hnow, hgrows⟩ := h.grown i before after hwrote
  obtain ⟨stored, hstored, hidentity, -⟩ := hgrows _ pairing hsaved
  exact ⟨now, stored, hnow, hstored, hidentity.symm⟩

include h in
theorem Kept.consumed_both {i j : ι} {first second : PairingCode}
    (hi : (pool.threads i).returned = some (.consumed first))
    (hj : (pool.threads j).returned = some (.consumed second))
    (hid : first.pairingId = second.pairingId) :
    first.maxUses = second.maxUses ∧ (first.useCount = second.useCount → i = j) := by
  obtain ⟨beforeᵢ, afterᵢ, hwroteᵢ, hsavedᵢ, husesᵢ, -⟩ := h.consumed hi
  obtain ⟨beforeⱼ, afterⱼ, hwroteⱼ, hsavedⱼ, husesⱼ, -⟩ := h.consumed hj
  constructor
  · obtain ⟨now, a, hnow, ha, hfirst⟩ := h.stored hwroteᵢ hsavedᵢ
    obtain ⟨now', b, hnow', hb, hsecond⟩ := h.stored hwroteⱼ hsavedⱼ
    rw [hnow] at hnow'
    cases hnow'
    rw [hid, hb] at ha
    cases ha
    have hmax : first.identity.maxUses = second.identity.maxUses := by rw [← hfirst, hsecond]
    exact hmax
  · intro hcount
    by_contra hne
    have hafterᵢ : uses afterᵢ first.pairingId = first.useCount := by rw [uses, hsavedᵢ]; rfl
    have hafterⱼ : uses afterⱼ first.pairingId = second.useCount := by rw [uses, hid, hsavedⱼ]; rfl
    rw [← hid] at husesⱼ
    exact h.distinct i j _ _ _ _ hne hwroteᵢ hwroteⱼ first.pairingId (by omega)
      (by omega) (by omega)

def countOf (pool : PairingPool ι) (i : ι) : ℕ :=
  match (pool.threads i).returned with
  | some (.consumed pairing) => pairing.useCount
  | _ => 0

omit [DecidableEq ι] in
theorem countOf_eq {pool : PairingPool ι} {i : ι} {pairing : PairingCode}
    (hi : (pool.threads i).returned = some (.consumed pairing)) :
    countOf pool i = pairing.useCount := by
  rw [countOf, hi]

include h in
theorem Kept.card_le {devices : Finset ι}
    (hi : (pool.threads i).returned = some (.consumed pairing))
    (hdevices : ∀ j ∈ devices, ∃ other, (pool.threads j).returned = some (.consumed other) ∧
      other.pairingId = pairing.pairingId) :
    devices.card ≤ pairing.maxUses := by
  have hmaps : ∀ j ∈ devices, countOf pool j ∈ Finset.Icc 1 pairing.maxUses := by
    intro j hj
    obtain ⟨other, hother, hid⟩ := hdevices j hj
    obtain ⟨before, after, -, -, huses, hlimit⟩ := h.consumed hother
    have hmax := (h.consumed_both hother hi hid).1
    rw [countOf_eq hother, Finset.mem_Icc]
    omega
  have hinj : Set.InjOn (countOf pool) devices := by
    intro j hj j' hj' hcount
    obtain ⟨a, ha, hida⟩ := hdevices j hj
    obtain ⟨b, hb, hidb⟩ := hdevices j' hj'
    rw [countOf_eq ha, countOf_eq hb] at hcount
    exact (h.consumed_both ha hb (hida.trans hidb.symm)).2 hcount
  calc devices.card
      _ ≤ (Finset.Icc 1 pairing.maxUses).card := Finset.card_le_card_of_injOn _ hmaps hinj
      _ = pairing.maxUses := by simp

/-- In every permitted interleaving of calls of the store in which each save without the
lock finds the file as it was loaded: a pairing admits at most its number of devices, and
a pairing that was created is in the file from then on. -/
theorem pairing_admits_at_most (env : Env) (hids : Function.Injective env.ids) (w : World)
    (hnew : ∀ first, loadPairings env w.file = .ok first → ∀ n, first.lookup (env.ids n) = none)
    (calls : ι → PairingCall) (schedule : List ι)
    (hschedule : Pool.Throughout (exec env)
      (fun pool i => Permitted locking pool i ∧
        Current env pool i) (startPool env calls w) schedule) :
    (∀ i pairing,
      ((poolAfter env calls w schedule).threads i).returned = some (.consumed pairing) →
      ∀ devices : Finset ι, (∀ j ∈ devices, ∃ other,
        ((poolAfter env calls w schedule).threads j).returned = some (.consumed other) ∧
          other.pairingId = pairing.pairingId) →
      devices.card ≤ pairing.maxUses) ∧
    ∀ i pairing,
      ((poolAfter env calls w schedule).threads i).returned = some (.created pairing) →
      ∃ now stored, loadPairings env (poolAfter env calls w schedule).state.file = .ok now ∧
        now.lookup pairing.pairingId = some stored ∧ stored.identity = pairing.identity := by
  have h := Along.invariant (Kept env w.file) (fun _ _ h hside => h.step hids hnew hside.1 hside.2)
    (kept_start env calls w) hschedule
  constructor
  · intro i pairing hi devices hdevices
    exact h.card_le hi hdevices
  · intro i pairing hi
    obtain ⟨before, hwrote⟩ := Prog.Meets.post_of_returned (h.honest i) hi
    exact h.stored hwrote (by rw [lookup_insert, if_pos rfl])

end Schedules

def lengthIds (clock : ℕ → ℚ) : Env :=
  { constantDraws clock with
    ids := fun n => String.ofList (['p', 'a', 'i', 'r', '_', '0'] ++ List.replicate n '0') }

def liveWorld : World := ⟨some (savePairings (Table.empty.insert livePairing)), false, 0, 0, 0⟩

theorem lengthIds_new (clock : ℕ → ℚ) (first : Pairings)
    (hfirst : loadPairings (lengthIds clock) liveWorld.file = .ok first) (n : ℕ) :
    first.lookup ((lengthIds clock).ids n) = none := by
  have hload : loadPairings (lengthIds clock) liveWorld.file = .ok ⟨[livePairing], by simp⟩ := rfl
  cases hfirst
  have hne : (lengthIds clock).ids n ≠ "pair_a" := by
    intro h
    have hlist : ['p', 'a', 'i', 'r', '_', '0'] ++ List.replicate n '0' = "pair_a".toList := by
      rw [← h]
      exact String.toList_ofList.symm
    have hsixth := congrArg (fun l => l[5]?) hlist
    simp at hsixth
  refine eq_none_iff_forall_ne_some.2 fun row hrow => hne ?_
  obtain ⟨hmem, hkey⟩ := lookup_eq_some_iff.1 hrow
  rw [← hkey, List.mem_singleton.1 hmem]
  rfl

/-- Two devices type the code of the pairing for ten, one after the other. -/
theorem pairing_admits_at_most_both :
    let env := lengthIds fun _ => 200
    let pool := poolAfter env (fun _ => .consume "123456" (some 200)) liveWorld
      [true, true, true, true, false, false, false, false]
    (pool.threads true).returned.isSome = true ∧ (pool.threads false).returned.isSome = true ∧
      ({true, false} : Finset Bool).card ≤ 10 := by
  refine ⟨by decide +kernel, by decide +kernel, ?_⟩
  refine (pairing_admits_at_most (lengthIds fun _ => 200) ?_ liveWorld
    (lengthIds_new _) (fun _ => .consume "123456" (some 200))
    [true, true, true, true, false, false, false, false] (by decide +kernel)).1 true
    (useOnce livePairing) (by decide +kernel) {true, false} ?_
  · intro m n h
    have hlist := congrArg List.length (String.ofList_injective h)
    simpa using hlist
  intro j _
  cases j with
  | true => exact ⟨useOnce livePairing, by decide +kernel, rfl⟩
  | false =>
    exact ⟨useOnce (useOnce livePairing), by decide +kernel, rfl⟩

/-- A request for an expired pairing has loaded the file. A pairing is created under the
lock. The request saves what it loaded, and the new pairing is gone. -/
theorem created_pairing_lost :
    let env := lengthIds fun _ => 400
    let calls : Bool → PairingCall
      | true => .create "https://c" 100 1
      | false => .get "pair_a" none
    let schedule := [false, false, true, true, true, true, true, true, true, true, false]
    let pool := poolAfter env calls liveWorld schedule
    Pool.Throughout (exec env) (Permitted locking) (startPool env calls liveWorld) schedule ∧
      (pool.threads true).returned = some (.created { livePairing with
        pairingId := "pair_0", code := "123456", expiresAt := 500, maxUses :=
          1, createdAt := 400 }) ∧
      ((loadPairings env pool.state.file).map fun now => now.lookup "pair_0") = .ok none := by
  decide +kernel

end OmniDoer.Pairing
