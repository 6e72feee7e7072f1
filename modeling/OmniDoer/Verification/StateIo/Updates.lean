import OmniDoer.Model.StateIo

/-! # Updates of a shared state file

A store loads its file, changes what it loaded and writes the whole file back, under the
lock of its process. Threads of one process exclude each other. If moreover no other
process writes the file between the load and the write, then what is written is a change
of what the file holds. -/

namespace OmniDoer.StateIo

open Py Effects

variable {π σ τ : Type}

/-- A file as the store that owns it sees it. -/
structure Shared (σ τ : Type) where
  path : String
  view : Option σ → Except Error τ

/-- What a thread remembers: the process whose lock it holds, what it loaded last and has not
written since, the identifiers and the times it was given, and what it wrote over what. -/
structure Memory (π τ : Type) where
  held : Option π
  seen : Option τ
  issued : List String
  times : List ℚ
  wrote : Option (τ × τ)

def Memory.start : Memory π τ := ⟨none, none, [], [], none⟩

theorem toOption_eq_some {x : Except Error τ} {a : τ} (h : x.toOption = some a) : x = .ok a := by
  cases x with
  | error e => cases h
  | ok b => rw [Option.some.inj h]

variable (X : Shared σ τ)

def Memory.loads (m : Memory π τ) (loaded : Except Error τ) : Memory π τ :=
  { m with seen := loaded.toOption }

def Memory.writes (m : Memory π τ) (written : Except Error τ) : Memory π τ :=
  { m with seen := none, wrote := m.seen.bind fun before => written.toOption.map (before, ·) }

def Memory.after (m : Memory π τ) : (o : FileOp π σ) → o.Ans → Memory π τ
  | .acquire p path, _ => if path = X.path then { m with held := some p } else m
  | .release _ path, _ => if path = X.path then { m with held := none } else m
  | .load path, text => if path = X.path then m.loads (X.view text) else m
  | .write path text, _ => if path = X.path then m.writes (X.view (some text)) else m
  | .time, t => { m with times := m.times ++ [t] }
  | .uuid, id => { m with issued := m.issued ++ [id] }

def FileOp.path : FileOp π σ → Option String
  | .acquire _ path | .release _ path | .load path | .write path _ => some path
  | .time | .uuid => none

variable (process : π) (Change : Memory π τ → τ → τ → Prop)

/-- Of the file `X` the thread takes the lock of its process before it loads, and writes at
most once, under the lock, a change of what it loaded. -/
def touching : Prog.Contract (FileOp π σ) FileOp.Ans (Memory π τ) where
  guar m
    | .acquire p path => path = X.path → p = process ∧ m.held = none ∧ m.seen = none
    | .release p path => path = X.path → p = process ∧ m.held = some process
    | .write path text => path = X.path → m.held = some process ∧ m.wrote = none ∧
        ∃ before after, m.seen = some before ∧ X.view (some text) = .ok after ∧
          Change m before after
    | _ => True
  rely := fun _ _ => True
  next := Memory.after X

def updating : Prog.Contract (FileOp π σ) FileOp.Ans (Memory π τ) where
  guar m o := (∀ path ∈ o.path, path = X.path) ∧ (touching X process Change).guar m o
  rely := fun _ _ => True
  next := Memory.after X

variable {X process Change}

theorem touching_of_updating {α : Type} {post : Memory π τ → Except Error α → Prop} {m : Memory π τ}
    {p : FileProg π σ α} (h : p.Meets (updating X process Change) post m) :
    p.Meets (touching X process Change) post m := by
  refine h.transfer Eq ?_ ?_ rfl
  · rintro m _ o rfl hguar
    exact ⟨hguar.2, fun _ _ => ⟨trivial, rfl⟩⟩
  · rintro m _ r rfl hpost
    exact hpost

theorem touching_of_elsewhere {τ' α : Type} {Y : Shared σ τ'}
    {Change' : Memory π τ' → τ' → τ' → Prop}
    (hpath : Y.path ≠ X.path) {post : Memory π τ' → Except Error α → Prop} {m' : Memory π τ'}
    {p : FileProg π σ α} (h : p.Meets (updating Y process Change') post m') (m : Memory π τ) :
    p.Meets (touching X process Change) (fun _ _ => True) m := by
  refine h.transfer (fun _ _ => True) ?_ (fun _ _ _ _ _ => trivial) trivial
  rintro m' m o - ⟨hconfined, -⟩
  refine ⟨?_, fun _ _ => ⟨trivial, trivial⟩⟩
  have hother (path : String) (ho : path ∈ o.path) : path ≠ X.path :=
    fun hX => hpath ((hconfined path ho).symm.trans hX)
  cases o with
  | acquire _ path | release _ path | write path => exact fun hX => (hother path rfl hX).elim
  | load | time | uuid => trivial

section Steps

variable {α β : Type} {post : Memory π τ → Except Error α → Prop} {m : Memory π τ}

theorem lockedStateFile_meets {body : FileProg π σ α} (hheld : m.held = none)
    (hseen : m.seen = none) (hbody : body.Meets (updating X process Change)
      (fun m r => m.held = some process ∧
        post { m with held := none } r) { m with held := some process }) :
    (lockedStateFile process X.path body).Meets (updating X process Change) post m := by
  have hacquired : body.Meets (updating X process Change)
      (fun m r => m.held = some process ∧ post { m with held := none } r)
      ((updating X process Change).next m (.acquire process X.path) ()) := by
    simpa [updating, Memory.after] using hbody
  refine Prog.Meets.between ?_ (fun _ _ => hacquired) ?_
  · exact ⟨fun _ h => (Option.some.inj h).symm, fun _ => ⟨rfl, hheld, hseen⟩⟩
  · intro m r h
    refine ⟨⟨fun _ h => (Option.some.inj h).symm, fun _ => ⟨rfl, h.1⟩⟩, fun _ _ => ?_⟩
    simpa [updating, Memory.after] using h.2

theorem load_bind {k : Option σ → FileProg π σ α}
    (h : ∀ text, (k text).Meets (updating X process Change) post (m.loads (X.view text))) :
    (Prog.op (.load X.path) k : FileProg π σ α).Meets (updating X process Change) post m := by
  refine ⟨⟨fun _ h => (Option.some.inj h).symm, trivial⟩, fun text _ => ?_⟩
  simpa [updating, Memory.after] using h text

theorem write_bind {text : σ} {before after : τ} {k : Unit → FileProg π σ α}
    (hheld : m.held = some process) (hwrote : m.wrote = none) (hseen : m.seen = some before)
    (hafter : X.view (some text) = .ok after) (hchange : Change m before after)
    (h : (k ()).Meets (updating X process Change) post
      { m with seen := none, wrote := some (before, after) }) :
    (Prog.op (.write X.path text) k : FileProg π σ α).Meets (updating X process Change) post m := by
  refine ⟨⟨fun _ h => (Option.some.inj h).symm, fun _ => ⟨hheld, hwrote, before, after, hseen,
    hafter, hchange⟩⟩, fun _ _ => ?_⟩
  have hnext : (updating X process Change).next m (.write X.path text) () =
      { m with seen := none, wrote := some (before, after) } := by
    simp [updating, Memory.after, Memory.writes, hseen, hafter, Except.toOption]
  rw [hnext]
  exact h

theorem time_bind {k : ℚ → FileProg π σ α}
    (h : ∀ t, (k t).Meets (updating X process Change) post { m with times := m.times ++ [t] }) :
    (time >>= k).Meets (updating X process Change) post m :=
  ⟨⟨fun _ h => (nomatch h), trivial⟩, fun t _ => h t⟩

theorem uuid_bind {k : String → FileProg π σ α}
    (h : ∀ id, (k id).Meets (updating X process Change) post
      { m with issued := m.issued ++ [id] }) :
    (uuid >>= k).Meets (updating X process Change) post m :=
  ⟨⟨fun _ h => (nomatch h), trivial⟩, fun id _ => h id⟩

def viewed {ρ : Type} (file : StateFile σ ρ) (f : Option ρ → τ) : Shared σ τ where
  path := file.path
  view text := (file.read text).map f

theorem loading_bind {ρ : Type} {file : StateFile σ ρ} {f : Option ρ → τ}
    {Change : Memory π τ → τ → τ → Prop} {k : τ → FileProg π σ α}
    (hok : ∀ content, (k content).Meets (updating (viewed file f) process Change) post
      { m with seen := some content })
    (herror : ∀ e, post { m with seen := none } (.error e)) :
    (loading file >>= fun content => k (f content)).Meets (updating (viewed file f) process Change)
      post m := by
  refine load_bind fun text => ?_
  change (Prog.ofExcept (file.read text) >>= fun content => k (f content)).Meets _ post
    { m with seen := ((file.read text).map f).toOption }
  cases file.read text with
  | error e => exact herror e
  | ok content => exact hok (f content)

theorem writing_bind {ρ : Type} {file : StateFile σ ρ} {f : Option ρ → τ}
    {Change : Memory π τ → τ → τ → Prop} {content : ρ} {before : τ} {k : Unit → FileProg π σ α}
    (hheld : m.held = some process) (hwrote : m.wrote = none) (hseen : m.seen = some before)
    (hchange : Change m before (f (some content)))
    (h : (k ()).Meets (updating (viewed file f) process Change) post
      { m with seen := none, wrote := some (before, f (some content)) }) :
    (atomicWriteJson file content >>= k).Meets
    (updating (viewed file f) process Change) post m := by
  refine write_bind hheld hwrote hseen ?_ hchange h
  change (file.read (some (file.encode content))).map f = .ok (f (some content))
  rw [file.read_encode]
  rfl

end Steps

section Alone

variable [DecidableEq π] {α : Type}

/-- What a thread remembers of a run of its own that began in the world `w₀`. -/
structure Alone (env : Env) (X : Shared σ τ) (w₀ : World π σ) (m : Memory π τ) (w : World π σ) :
    Prop where
  tick : w.tick = w₀.tick + m.times.length
  times : ∀ n t, m.times[n]? = some t → t = env.clock (w₀.tick + n)
  count : w.issued = w₀.issued + m.issued.length
  issued : ∀ n id, m.issued[n]? = some id → id = env.ids (w₀.issued + n)
  seen : ∀ before, m.seen = some before → m.wrote = none → X.view (w₀.files X.path) = .ok before
  unwritten : m.wrote = none → w.files X.path = w₀.files X.path
  written : ∀ before after, m.wrote = some (before, after) →
    X.view (w₀.files X.path) = .ok before ∧ X.view (w.files X.path) = .ok after

theorem answers_append {β : Type} {l : List β} {f : ℕ → β} (hl : ∀ n b, l[n]? = some b → b = f n)
    {x : β} (hx : x = f l.length) : ∀ n b, (l ++ [x])[n]? = some b → b = f n := by
  intro n b hb
  rw [List.getElem?_append] at hb
  split at hb
  · exact hl n b hb
  · have hn : n - l.length = 0 := by
      have hlt := (List.getElem?_eq_some_iff.1 hb).1
      simp only [List.length_singleton] at hlt
      omega
    rw [hn] at hb
    have hlength : n = l.length := by omega
    rw [hlength, ← hx]
    exact (Option.some.inj hb).symm

/-- A call that runs alone ends with what its contract says. -/
theorem alone_run (env : Env) {post : Memory π τ → Except Error α → Prop} {p : FileProg π σ α}
    (h : p.Meets (updating X process Change) post .start) (w₀ : World π σ) :
    ∃ m, Alone env X w₀ m (p.run (exec env) w₀).2 ∧ post m (p.run (exec env) w₀).1 := by
  refine h.run (Alone env X w₀) (fun m w o halone hguar => ⟨trivial, ?_⟩) ?_
  · obtain ⟨hpath, hguar⟩ := hguar
    cases o with
    | acquire p path | release p path =>
      cases hpath path rfl
      simp only [updating, Memory.after]
      exact ⟨halone.tick, halone.times, halone.count, halone.issued, halone.seen, halone.unwritten,
        halone.written⟩
    | load path =>
      cases hpath path rfl
      simp only [updating, Memory.after]
      refine ⟨halone.tick, halone.times, halone.count, halone.issued, ?_, halone.unwritten,
        halone.written⟩
      intro before hseen hwrote
      rw [← halone.unwritten hwrote]
      exact toOption_eq_some hseen
    | write path text =>
      cases hpath path rfl
      obtain ⟨-, hwrote, before, after, hseen, hafter, -⟩ := hguar rfl
      have hnext : (updating X process Change).next m (.write X.path text) () =
          { m with seen := none, wrote := some (before, after) } := by
        simp [updating, Memory.after, Memory.writes, hseen, hafter, Except.toOption]
      rw [hnext]
      refine ⟨halone.tick, halone.times, halone.count, halone.issued, nofun, nofun, ?_⟩
      rintro _ _ ⟨⟩
      refine ⟨halone.seen before hseen hwrote, ?_⟩
      change X.view (Function.update w.files X.path (some text) X.path) = .ok after
      rw [Function.update_self, hafter]
    | time =>
      refine ⟨?_, ?_, halone.count, halone.issued, halone.seen, halone.unwritten, halone.written⟩
      · simp [updating, Memory.after, exec, halone.tick, Nat.add_assoc]
      · exact answers_append (f := fun n => env.clock (w₀.tick + n)) halone.times
          (congrArg env.clock halone.tick)
    | uuid =>
      refine ⟨halone.tick, halone.times, ?_, ?_, halone.seen, halone.unwritten, halone.written⟩
      · simp [updating, Memory.after, exec, halone.count, Nat.add_assoc]
      · exact answers_append (f := fun n => env.ids (w₀.issued + n)) halone.issued
          (congrArg env.ids halone.count)
  · exact ⟨rfl, by simp [Memory.start], rfl, by simp [Memory.start], nofun, fun _ => rfl, nofun⟩

end Alone

section Schedules

variable {ι α : Type} [DecidableEq ι] [DecidableEq π]

abbrev FilePool (ι π σ α : Type) := Pool ι (World π σ) (FileOp π σ) FileOp.Ans Error α

/-- The locks of the file, one for each process. -/
def lockingOf (X : Shared σ τ) : Locking (FileOp π σ) (World π σ) π where
  action
    | .acquire p path => if path = X.path then .acquire p else .none
    | .release p path => if path = X.path then .release p else .none
    | _ => .none
  locked w p := w.locked (p, X.path)

omit [DecidableEq π] in
theorem eq_of_action {o : FileOp π σ} {a : LockAction π} : (lockingOf X).action o = a →
    match a with
    | .acquire p => o = .acquire p X.path
    | .release p => o = .release p X.path
    | .none => True := by
  rintro rfl
  cases o with
  | acquire p path | release p path =>
    by_cases hX : path = X.path <;> simp [lockingOf, hX]
  | _ => trivial

omit [DecidableEq ι] [DecidableEq π] in
theorem permitted_lockingOf {pool : FilePool ι π σ α} {i : ι} (h : Permitted locking pool i) :
    Permitted (lockingOf X) pool i := by
  unfold Permitted
  split
  · rename_i o k ht
    split
    · rename_i p hp
      cases eq_of_action hp
      exact h.free ht rfl
    · trivial
  · trivial

omit [DecidableEq π] in
theorem disciplined_touching (X : Shared σ τ) (process : π) (Change : Memory π τ → τ → τ → Prop) :
    Disciplined (lockingOf X) Memory.held (touching X process Change) where
  acquire m o l hguar haction := by
    cases eq_of_action haction
    exact (hguar rfl).2.1
  release m o l hguar haction := by
    cases eq_of_action haction
    obtain ⟨hl, hheld⟩ := hguar rfl
    rw [hheld, hl]
  next_acquire m o l x haction := by
    cases eq_of_action haction
    simp [touching, Memory.after]
  next_release m o l x haction := by
    cases eq_of_action haction
    simp [touching, Memory.after]
  next_none m o x haction := by
    cases o with
    | acquire _ path | release _ path =>
      by_cases hX : path = X.path
      · simp [lockingOf, hX] at haction
      · simp [touching, Memory.after, hX]
    | load | write =>
      simp only [touching, Memory.after]
      split <;> rfl
    | time | uuid => rfl

theorem lockingOf_runs (env : Env) (X : Shared σ τ) :
    Locking.Runs (lockingOf X) (exec env : (o : FileOp π σ) → World π σ → o.Ans × World π σ) := by
  intro o w
  funext p
  cases o with
  | acquire q path | release q path =>
    by_cases hX : path = X.path
    · subst hX
      simp [lockingOf, exec, LockAction.after, Function.update_apply]
    · simp [lockingOf, exec, LockAction.after, hX, Ne.symm hX]
  | _ => rfl

/-- Whether thread `i` is overtaken after an operation: its own load catches up, a write of
another process gets ahead. -/
def overtakes (proc : ι → π) (path : String) (i mover : ι) (stale : Bool) : FileOp π σ → Bool
  | .load p => if p = path ∧ mover = i then false else stale
  | .write p _ => if p = path ∧ proc mover ≠ proc i then true else stale
  | _ => stale

/-- Whether another process has written the file since thread `i` loaded it. -/
def overtaken (proc : ι → π) (path : String) (i : ι)
    (log : List (ι × (o : FileOp π σ) × o.Ans)) : Bool :=
  log.foldl (fun stale entry => overtakes proc path i entry.1 stale entry.2.1) false

/-- If thread `i` is about to write a file, no other process has written it since the
thread loaded it. -/
def Undisturbed (proc : ι → π) (pool : FilePool ι π σ α) (i : ι) : Prop :=
  match pool.threads i with
  | .op (.write path _) _ => overtaken proc path i pool.log = false
  | _ => True

instance (proc : ι → π) (pool : FilePool ι π σ α) (i : ι) :
    Decidable (Undisturbed proc pool i) := by
  unfold Undisturbed
  split <;> infer_instance

variable (X) in
def memoryOf (pool : FilePool ι π σ α) (i : ι) : Memory π τ :=
  Pool.memory (Memory.after X) i .start pool.log

variable {i : ι}

theorem memoryOf_step (env : Env) {pool : FilePool ι π σ α} {o : FileOp π σ}
    {k : o.Ans → FileProg π σ α} (ht : pool.threads i = .op o k) (j : ι) :
    memoryOf X (pool.step (exec env) i) j =
      if j = i then (memoryOf X pool i).after X o (exec env o pool.state).1
      else memoryOf X pool j :=
  Pool.memory_step (exec env) ht
    (fun _ => ⟨fun _ _ => True, fun _ _ => True, Memory.after X⟩) .start j

theorem overtaken_step (env : Env) {proc : ι → π} {path : String} {pool : FilePool ι π σ α}
    {o : FileOp π σ} {k : o.Ans → FileProg π σ α} (ht : pool.threads i = .op o k) (j : ι) :
    overtaken proc path j (pool.step (exec env) i).log =
      overtakes proc path j i (overtaken proc path j pool.log) o := by
  rw [Pool.step_of_op (exec env) ht, overtaken, List.foldl_append]
  rfl

section Elsewhere

variable {o : FileOp π σ}

omit [DecidableEq π] in
theorem Memory.after_elsewhere (h : X.path ∉ o.path) (m : Memory π τ) (x : o.Ans) :
    (m.after X o x).held = m.held ∧ (m.after X o x).seen = m.seen ∧
      (m.after X o x).wrote = m.wrote := by
  cases o with
  | acquire p path | release p path | load path | write path text =>
    have hX : path ≠ X.path := fun hX => h (congrArg some hX)
    simp [Memory.after, hX]
  | time | uuid => exact ⟨rfl, rfl, rfl⟩

theorem files_elsewhere (env : Env) {path : String} (h : path ∉ o.path) (w : World π σ) :
    (exec env o w).2.files path = w.files path := by
  cases o with
  | write p text =>
    have hp : path ≠ p := fun hp => h (congrArg some hp.symm)
    exact Function.update_of_ne hp _ _
  | _ => rfl

theorem overtakes_elsewhere {proc : ι → π} {path : String} (h : path ∉ o.path) (i mover : ι)
    (stale : Bool) : overtakes proc path i mover stale o = stale := by
  cases o with
  | load p | write p _ =>
    have hp : p ≠ path := fun hp => h (congrArg some hp)
    simp [overtakes, hp]
  | _ => rfl

end Elsewhere

/-- What a thread has loaded under the lock is what the file holds, unless another process
has written it since. -/
structure Shares (X : Shared σ τ) (proc : ι → π) (Change : Memory π τ → τ → τ → Prop)
    (post : ι → Memory π τ → Except Error α → Prop) (pool : FilePool ι π σ α) : Prop where
  honest : pool.Honest (fun i => touching X (proc i) Change) post .start
  exclusive : Exclusive (lockingOf X) Memory.held (fun i => touching X (proc i) Change) .start pool
  fresh : ∀ i content, (memoryOf X pool i).held = some (proc i) →
    (memoryOf X pool i).seen = some content → overtaken proc X.path i pool.log = false →
    X.view (pool.state.files X.path) = .ok content

variable {proc : ι → π} {Change : Memory π τ → τ → τ → Prop}
variable {post : ι → Memory π τ → Except Error α → Prop} {pool : FilePool ι π σ α}

theorem Shares.start (hlog : pool.log = [])
    (h : ∀ i, (pool.threads i).Meets (touching X (proc i) Change) (post i) .start) :
    Shares X proc Change post pool where
  honest := by
    intro i
    rw [hlog]
    exact h i
  exclusive := .start hlog rfl
  fresh := by
    intro i content hheld
    rw [memoryOf, hlog] at hheld
    cases hheld

variable (h : Shares X proc Change post pool)

include h in
theorem Shares.write {text : σ} {k : Unit → FileProg π σ α}
    (ht : pool.threads i = .op (.write X.path text) k) (hundisturbed : Undisturbed proc pool i) :
    (memoryOf X pool i).held = some (proc i) ∧ (memoryOf X pool i).wrote = none ∧
      ∃ before after, (memoryOf X pool i).seen = some before ∧
        X.view (pool.state.files X.path) = .ok before ∧ X.view (some text) = .ok after ∧
        Change (memoryOf X pool i) before after := by
  have hguar := h.honest i
  rw [ht] at hguar
  obtain ⟨hheld, hwrote, before, after, hseen, hafter, hchange⟩ := hguar.1 rfl
  unfold Undisturbed at hundisturbed
  rw [ht] at hundisturbed
  exact ⟨hheld, hwrote, before, after, hseen, h.fresh i before hheld hseen hundisturbed, hafter,
    hchange⟩

include h in
theorem Shares.step (env : Env)
    (hpermitted : Permitted locking pool i) (hundisturbed : Undisturbed proc pool i) :
    Shares X proc Change post (pool.step (exec env) i) := by
  have honest := Pool.Honest.step (exec env) h.honest i fun _ _ => trivial
  have exclusive :=
    Exclusive.step (lockingOf_runs env X) (fun j => disciplined_touching X (proc j) Change)
    h.exclusive h.honest (permitted_lockingOf hpermitted)
  refine ⟨honest, exclusive, ?_⟩
  rcases pool.step_cases (exec env) i with he | ⟨o, k, ht, -⟩
  · rw [he]
    exact h.fresh
  intro j content hheld hseen hstale
  rw [memoryOf_step env ht] at hheld hseen
  rw [overtaken_step env ht] at hstale
  have hstate : (pool.step (exec env) i).state = (exec env o pool.state).2 := by
    rw [Pool.step_of_op (exec env) ht]
  rw [hstate]
  by_cases hpath : X.path ∈ o.path
  · have hguar := h.honest i
    rw [ht] at hguar
    by_cases hj : j = i
    · -- the thread that moves has no loaded content but after its load
      subst hj
      cases o with
      | acquire p path =>
        cases hpath
        have hnone : (memoryOf X pool j).seen = none := (hguar.1 rfl).2.2
        simp [Memory.after, hnone] at hseen
      | release p path =>
        cases hpath
        simp [Memory.after] at hheld
      | load path =>
        cases hpath
        simp only [Memory.after] at hseen
        exact toOption_eq_some hseen
      | write path text =>
        cases hpath
        simp [Memory.after, Memory.writes] at hseen
      | time | uuid => cases hpath
    · rw [if_neg hj] at hheld hseen
      cases o with
      | acquire | release => exact h.fresh j content hheld hseen hstale
      | load path =>
        rw [overtakes, if_neg fun hi => hj hi.2.symm] at hstale
        exact h.fresh j content hheld hseen hstale
      | write path text =>
        cases hpath
        by_cases hproc : proc i = proc j
        · -- a thread of the same process cannot write while this one holds the lock
          have hwriter := (h.write ht hundisturbed).1
          exact (hj (h.exclusive.unique i j _ hwriter (hheld.trans (by rw [hproc]))).symm).elim
        · simp [overtakes, hproc] at hstale
      | time | uuid => cases hpath
  · rw [files_elsewhere env hpath]
    rw [overtakes_elsewhere hpath] at hstale
    obtain ⟨hheld', hseen', -⟩ :=
      (memoryOf X pool i).after_elsewhere hpath (exec env o pool.state).1
    split at hheld
    · rename_i hj
      subst hj
      rw [if_pos rfl, hseen'] at hseen
      exact h.fresh j content (hheld'.symm.trans hheld) hseen hstale
    · rename_i hj
      rw [if_neg hj] at hseen
      exact h.fresh j content hheld hseen hstale

/-- What one step can do to the file and to what the threads have written and been given:
nothing; a new identifier for the thread that moves; or a change of what the file holds. -/
inductive Moves (env : Env) (X : Shared σ τ) (Change : Memory π τ → τ → τ → Prop)
    (pool pool' : FilePool ι π σ α) (i : ι) : Prop
  | quiet (hfile : pool'.state.files X.path = pool.state.files X.path)
      (hissued : pool'.state.issued = pool.state.issued)
      (hsame : ∀ j, (memoryOf X pool' j).issued = (memoryOf X pool j).issued ∧
        (memoryOf X pool' j).wrote = (memoryOf X pool j).wrote)
  | uuid (hfile : pool'.state.files X.path = pool.state.files X.path)
      (hissued : pool'.state.issued = pool.state.issued + 1)
      (hself : (memoryOf X pool' i).issued =
        (memoryOf X pool i).issued ++ [env.ids pool.state.issued])
      (hother : ∀ j, j ≠ i → (memoryOf X pool' j).issued = (memoryOf X pool j).issued)
      (hsame : ∀ j, (memoryOf X pool' j).wrote = (memoryOf X pool j).wrote)
  | write (before after : τ) (hbefore : X.view (pool.state.files X.path) = .ok before)
      (hafter : X.view (pool'.state.files X.path) = .ok after)
      (hchange : Change (memoryOf X pool i) before after)
      (hfirst : (memoryOf X pool i).wrote = none)
      (hissued : pool'.state.issued = pool.state.issued)
      (hself : (memoryOf X pool' i).wrote = some (before, after))
      (hother : ∀ j, j ≠ i → (memoryOf X pool' j).wrote = (memoryOf X pool j).wrote)
      (hsame : ∀ j, (memoryOf X pool' j).issued = (memoryOf X pool j).issued)

theorem moves_quiet (env : Env) {o : FileOp π σ} {k : o.Ans → FileProg π σ α}
    (ht : pool.threads i = .op o k)
    (hfile : (exec env o pool.state).2.files X.path = pool.state.files X.path)
    (hissued : (exec env o pool.state).2.issued = pool.state.issued)
    (hmemory : ∀ (m : Memory π τ) x, (m.after X o x).issued = m.issued ∧
      (m.after X o x).wrote = m.wrote) :
    Moves env X Change pool (pool.step (exec env) i) i := by
  have hstate : (pool.step (exec env) i).state = (exec env o pool.state).2 := by
    rw [Pool.step_of_op (exec env) ht]
  refine .quiet (by rw [hstate, hfile]) (by rw [hstate, hissued]) fun j => ?_
  rw [memoryOf_step env ht]
  split
  · rename_i hj
    rw [hj]
    exact hmemory _ _
  · exact ⟨rfl, rfl⟩

include h in
theorem Shares.moves (env : Env) (hundisturbed : Undisturbed proc pool i) :
    Moves env X Change pool (pool.step (exec env) i) i := by
  rcases pool.step_cases (exec env) i with he | ⟨o, k, ht, -⟩
  · rw [he]
    exact .quiet rfl rfl fun _ => ⟨rfl, rfl⟩
  cases o with
  | acquire p path | release p path | load path =>
    refine moves_quiet env ht rfl rfl fun m x => ?_
    simp only [Memory.after]
    split <;> exact ⟨rfl, rfl⟩
  | time => exact moves_quiet env ht rfl rfl fun m x => ⟨rfl, rfl⟩
  | uuid =>
    have hmem := memoryOf_step (X := X) env ht
    refine .uuid ?_ ?_ ?_ ?_ ?_
    · rw [Pool.step_of_op (exec env) ht]
      rfl
    · rw [Pool.step_of_op (exec env) ht]
      rfl
    · rw [hmem, if_pos rfl]
      rfl
    · intro j hj
      rw [hmem, if_neg hj]
    · intro j
      rw [hmem]
      split
      · rename_i hj
        rw [hj]
        rfl
      · rfl
  | write path text =>
    by_cases hX : path = X.path
    · subst hX
      obtain ⟨-, hwrote, before, after, hseen, hbefore, hafter, hchange⟩ := h.write ht hundisturbed
      have hmem := memoryOf_step (X := X) env ht
      refine .write before after hbefore ?_ hchange hwrote ?_ ?_ ?_ ?_
      · rw [Pool.step_of_op (exec env) ht]
        simpa [exec] using hafter
      · rw [Pool.step_of_op (exec env) ht]
        rfl
      · rw [hmem]
        simp [Memory.after, Memory.writes, hseen, hafter, Except.toOption]
      · intro j hj
        rw [hmem, if_neg hj]
      · intro j
        rw [hmem]
        split
        · rename_i hj
          simp [hj, Memory.after, Memory.writes]
        · rfl
    · refine moves_quiet env ht ?_ rfl fun m x => ?_
      · exact Function.update_of_ne (Ne.symm hX) _ _
      · simp [Memory.after, hX]

end Schedules

end OmniDoer.StateIo
