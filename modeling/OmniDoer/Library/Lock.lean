import OmniDoer.Library.Program

/-! Locks in interleaved programs. A schedule is permitted when it takes a lock only while
it is free. Under a permitted schedule no two threads hold one lock, whatever else the
threads do. -/

namespace Effects

universe u v w

/-- What an operation does to the locks. -/
inductive LockAction (κ : Type*) where
  | acquire (l : κ)
  | release (l : κ)
  | none

namespace Prog

variable {Op : Type u} {Ans : Op → Type v} {ε α β : Type w}

/-- The body between two operations, of which the second is issued also when the body
raises: a `with` block. -/
def between (acquire release : Op) (body : Prog Op Ans ε α) : Prog Op Ans ε α :=
  .op acquire fun _ =>
    (body.handle fun e => .op release fun _ => .raise e) >>= fun a => .op release fun _ => .pure a

variable {γ : Type*} {c : Contract Op Ans γ}

theorem Meets.handle {mid post : γ → Except ε α → Prop} {g : γ} {p : Prog Op Ans ε α}
    {h : ε → Prog Op Ans ε α} (hp : p.Meets c mid g) (hok : ∀ g a, mid g (.ok a) → post g (.ok a))
    (herr : ∀ g e, mid g (.error e) → (h e).Meets c post g) : (p.handle h).Meets c post g := by
  induction p generalizing g with
  | pure a => exact hok g a hp
  | raise e => exact herr g e hp
  | op o k ih => exact ⟨hp.1, fun x hx => ih x (hp.2 x hx)⟩

theorem Meets.between {mid post : γ → Except ε α → Prop} {g : γ} {acquire release : Op}
    {body : Prog Op Ans ε α} (hacquire : c.guar g acquire)
    (hbody : ∀ x, c.rely acquire x → body.Meets c mid (c.next g acquire x))
    (hrelease : ∀ g r, mid g r →
      c.guar g release ∧ ∀ y, c.rely release y → post (c.next g release y) r) :
    (between acquire release body).Meets c post g := by
  refine ⟨hacquire, fun x hx => ?_⟩
  -- between the body and the bind, a raised outcome has already been released
  let handled : γ → Except ε α → Prop := fun g r =>
    Except.rec (fun e => post g (.error e)) (fun a => mid g (.ok a)) r
  have hhandled : (body.handle fun e => .op release fun _ => .raise e).Meets c handled
      (c.next g acquire x) :=
    Meets.handle (hbody x hx) (fun _ _ h => h) fun g e h => hrelease g (.error e) h
  exact Meets.bind hhandled (fun g a h => hrelease g (.ok a) h) fun _ _ h => h

theorem Returns.between {q post : γ → α → Prop} {g : γ} {acquire release : Op}
    {body : Prog Op Ans ε α} (hacquire : c.guar g acquire)
    (hbody : ∀ x, c.rely acquire x → body.Returns c q (c.next g acquire x))
    (hrelease : ∀ g, c.guar g release) (hpost : ∀ g a y, q g a → post (c.next g release y) a) :
    (between acquire release body).Returns c post g :=
  Meets.between hacquire hbody fun g _ h =>
    ⟨hrelease g, fun y _ a ha => hpost g a y (h a ha)⟩

variable {σ : Type*} {exec : (o : Op) → σ → Ans o × σ}

theorem run_between (acquire release : Op) (body : Prog Op Ans ε α) (s : σ) :
    (between acquire release body).run exec s =
      ((body.run exec (exec acquire s).2).1,
        (exec release (body.run exec (exec acquire s).2).2).2) := by
  rw [between, run_op, run_bind, run_handle]
  cases body.run exec (exec acquire s).2 with
  | mk r s' => cases r <;> rfl

end Prog

section Pools

variable {ι σ κ γ : Type*} {Op : Type u} {Ans : Op → Type v}
variable {ε α : Type w}

/-- The locks that are taken after an operation. -/
def LockAction.after [DecidableEq κ] (locked : κ → Bool) : LockAction κ → κ → Bool
  | .acquire l => Function.update locked l true
  | .release l => Function.update locked l false
  | .none => locked

/-- How the operations use the locks, and where the state shows which of them are taken. -/
structure Locking (Op : Type u) (σ κ : Type*) where
  action : Op → LockAction κ
  locked : σ → κ → Bool

variable (L : Locking Op σ κ)

/-- Thread `i` waits for a lock until it is free. -/
def Permitted (pool : Pool ι σ Op Ans ε α) (i : ι) : Prop :=
  match pool.threads i with
  | .op o _ =>
    match L.action o with
    | .acquire l => L.locked pool.state l = false
    | _ => True
  | _ => True

instance (pool : Pool ι σ Op Ans ε α) (i : ι) : Decidable (Permitted L pool i) := by
  unfold Permitted
  split
  · split <;> infer_instance
  · infer_instance

variable {pool : Pool ι σ Op Ans ε α}

theorem Permitted.free {L : Locking Op σ κ} {i : ι}
    (h : Permitted L pool i) {o : Op} {k : Ans o → Prog Op Ans ε α}
    (ht : pool.threads i = .op o k) {l : κ} (hl : L.action o = .acquire l) :
    L.locked pool.state l = false := by
  unfold Permitted at h
  rw [ht] at h
  simpa only [hl] using h

/-- The operations do to the state what their action says. -/
def Locking.Runs [DecidableEq κ] (exec : (o : Op) → σ → Ans o × σ) : Prop :=
  ∀ o s, L.locked (exec o s).2 = (L.action o).after (L.locked s)

/-- The contract lets a thread take a lock only while it holds none, and release only the
lock it holds. The lock that a thread holds is part of what it remembers. -/
structure Disciplined (held : γ → Option κ) (c : Prog.Contract Op Ans γ) : Prop where
  acquire : ∀ g o l, c.guar g o → L.action o = .acquire l → held g = none
  release : ∀ g o l, c.guar g o → L.action o = .release l → held g = some l
  next_acquire : ∀ g o l x, L.action o = .acquire l → held (c.next g o x) = some l
  next_release : ∀ g o l x, L.action o = .release l → held (c.next g o x) = none
  next_none : ∀ g o x, L.action o = .none → held (c.next g o x) = held g

/-- A lock that is held is taken, by one thread only. -/
structure Exclusive [DecidableEq ι] (held : γ → Option κ) (c : ι → Prog.Contract Op Ans γ) (g₀ : γ)
    (pool : Pool ι σ Op Ans ε α) : Prop where
  locked : ∀ i l, held (Pool.memory (c i).next i g₀ pool.log) = some l →
    L.locked pool.state l = true
  unique : ∀ i j l, held (Pool.memory (c i).next i g₀ pool.log) = some l →
    held (Pool.memory (c j).next j g₀ pool.log) = some l → i = j

variable [DecidableEq ι] {L} {held : γ → Option κ} {c : ι → Prog.Contract Op Ans γ} {g₀ : γ}
variable {post : ι → γ → Except ε α → Prop} {exec : (o : Op) → σ → Ans o × σ}

theorem Exclusive.start (hlog : pool.log = []) (hg : held g₀ = none) :
    Exclusive L held c g₀ pool where
  locked i l h := by simp [hlog, hg] at h
  unique i j l h := by simp [hlog, hg] at h

/-- A permitted step of disciplined threads keeps the locks exclusive. -/
theorem Exclusive.step [DecidableEq κ] (hruns : L.Runs exec) (hc : ∀ i, Disciplined L held (c i))
    (h : Exclusive L held c g₀ pool) (hhonest : pool.Honest c post g₀)
    {i : ι} (hpermitted : Permitted L pool i) :
    Exclusive L held c g₀ (pool.step exec i) := by
  rcases pool.step_cases exec i with he | ⟨o, k, ht, he⟩
  · rwa [he]
  have hi := hhonest i
  rw [ht] at hi
  have hmem := Pool.memory_step exec ht c g₀
  have hlocked : L.locked (pool.step exec i).state = (L.action o).after (L.locked pool.state) := by
    rw [he]
    exact hruns o pool.state
  cases haction : L.action o with
  | none =>
    -- nobody's lock changes
    have hheld (j : ι) : held (Pool.memory (c j).next j g₀ (pool.step exec i).log) =
        held (Pool.memory (c j).next j g₀ pool.log) := by
      rw [hmem]
      split
      · rename_i hj
        subst hj
        exact (hc j).next_none _ _ _ haction
      · rfl
    constructor
    · intro j l hj
      rw [hheld] at hj
      rw [hlocked, haction]
      exact h.locked j l hj
    · intro j j' l hj hj'
      rw [hheld] at hj hj'
      exact h.unique j j' l hj hj'
  | acquire l =>
    have hfree := hpermitted.free ht haction
    have hheld (j : ι) (l' : κ)
        (hj : held (Pool.memory (c j).next j g₀ (pool.step exec i).log) = some l') :
        (j = i ∧ l' = l) ∨
          (j ≠ i ∧ l' ≠ l ∧ held (Pool.memory (c j).next j g₀ pool.log) = some l') := by
      rw [hmem] at hj
      split at hj
      · rename_i hji
        rw [(hc i).next_acquire _ _ _ _ haction] at hj
        exact .inl ⟨hji, (Option.some.inj hj).symm⟩
      · rename_i hji
        refine .inr ⟨hji, ?_, hj⟩
        rintro rfl
        cases hfree.symm.trans (h.locked j l' hj)
    constructor
    · intro j l' hj
      rw [hlocked, haction]
      rcases hheld j l' hj with ⟨-, rfl⟩ | ⟨-, hne, hold⟩
      · exact Function.update_self _ _ _
      · exact (Function.update_of_ne hne _ _).trans (h.locked j l' hold)
    · intro j j' l' hj hj'
      rcases hheld j l' hj with ⟨rfl, rfl⟩ | ⟨-, hne, hold⟩
      · rcases hheld j' l' hj' with ⟨rfl, -⟩ | ⟨-, hne, -⟩
        · rfl
        · exact (hne rfl).elim
      · rcases hheld j' l' hj' with ⟨-, rfl⟩ | ⟨-, -, hold'⟩
        · exact (hne rfl).elim
        · exact h.unique j j' l' hold hold'
  | release l =>
    have hown := (hc i).release _ _ _ hi.1 haction
    have hheld (j : ι) (l' : κ)
        (hj : held (Pool.memory (c j).next j g₀ (pool.step exec i).log) = some l') :
        l' ≠ l ∧ held (Pool.memory (c j).next j g₀ pool.log) = some l' := by
      rw [hmem] at hj
      split at hj
      · rw [(hc i).next_release _ _ _ _ haction] at hj
        cases hj
      · rename_i hji
        refine ⟨?_, hj⟩
        rintro rfl
        exact hji (h.unique j i l' hj hown)
    constructor
    · intro j l' hj
      obtain ⟨hne, hold⟩ := hheld j l' hj
      rw [hlocked, haction]
      exact (Function.update_of_ne hne _ _).trans (h.locked j l' hold)
    · intro j j' l' hj hj'
      exact h.unique j j' l' (hheld j l' hj).2 (hheld j' l' hj').2

end Pools

end Effects
