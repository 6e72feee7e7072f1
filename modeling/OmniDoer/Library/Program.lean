import OmniDoer.Library.Runs
import Mathlib.Logic.Function.Basic
import Mathlib.Data.List.Basic
import Mathlib.Data.List.Induction

/-! Programs as trees of atomic operations. One tree serves two readings: `run`
executes it alone, and a pool interleaves many trees one operation at a time. The
contracts of this module are checked once per tree and hold in both readings. -/

namespace Effects

universe u v w

/-- A program returns, raises, or issues one atomic operation and continues with
its answer. -/
inductive Prog (Op : Type u) (Ans : Op → Type v) (ε α : Type w) where
  | pure (a : α)
  | raise (e : ε)
  | op (o : Op) (k : Ans o → Prog Op Ans ε α)

namespace Prog

variable {Op : Type u} {Ans : Op → Type v} {ε α β : Type w}

def bind : Prog Op Ans ε α → (α → Prog Op Ans ε β) → Prog Op Ans ε β
  | .pure a, f => f a
  | .raise e, _ => .raise e
  | .op o k, f => .op o fun x => (k x).bind f

instance : Monad (Prog Op Ans ε) where
  pure := .pure
  bind := .bind

variable (a : α)

@[simp] theorem pure_eq : (Pure.pure a : Prog Op Ans ε α) = Prog.pure a := rfl

variable (f : α → Prog Op Ans ε β)

@[simp] theorem pure_bind : (Prog.pure a : Prog Op Ans ε α) >>= f = f a := rfl

@[simp] theorem raise_bind (e : ε) : (Prog.raise e : Prog Op Ans ε α) >>= f = .raise e := rfl

@[simp] theorem op_bind (o : Op) (k : Ans o → Prog Op Ans ε α) :
    Prog.op o k >>= f = .op o fun x => k x >>= f := rfl

theorem bind_assoc {δ : Type w} (p : Prog Op Ans ε α)
    (g : β → Prog Op Ans ε δ) : p >>= f >>= g = p >>= fun a => f a >>= g := by
  induction p with
  | pure | raise => rfl
  | op o k ih => exact congrArg (Prog.op o) (funext ih)

/-- `try`/`except`: only the raised branches are replaced. -/
def handle : Prog Op Ans ε α → (ε → Prog Op Ans ε α) → Prog Op Ans ε α
  | .pure a, _ => .pure a
  | .raise e, h => h e
  | .op o k, h => .op o fun x => (k x).handle h

@[simp] theorem op_handle (o : Op) (k : Ans o → Prog Op Ans ε α) (h : ε → Prog Op Ans ε α) :
    (Prog.op o k).handle h = .op o fun x => (k x).handle h := rfl

/-- The answer of an operation that reports its own failure. -/
def ofExcept : Except ε α → Prog Op Ans ε α
  | .ok a => .pure a
  | .error e => .raise e

def returned : Prog Op Ans ε α → Option α
  | .pure a => some a
  | _ => none

section Run

variable {σ : Type*} (exec : (o : Op) → σ → Ans o × σ)

def run : Prog Op Ans ε α → σ → Except ε α × σ
  | .pure a, s => (.ok a, s)
  | .raise e, s => (.error e, s)
  | .op o k, s => (k (exec o s).1).run (exec o s).2

@[simp] theorem run_pure (s : σ) : (Prog.pure a : Prog Op Ans ε α).run exec s = (.ok a, s) := rfl

@[simp] theorem run_raise (e : ε) (s : σ) :
    (Prog.raise e : Prog Op Ans ε α).run exec s = (.error e, s) := rfl

@[simp] theorem run_op (o : Op) (k : Ans o → Prog Op Ans ε α) (s : σ) :
    (Prog.op o k).run exec s = (k (exec o s).1).run exec (exec o s).2 := rfl

theorem run_bind (p : Prog Op Ans ε α) (s : σ) :
    (p >>= f).run exec s =
      match p.run exec s with
      | (.ok a, s') => (f a).run exec s'
      | (.error e, s') => (.error e, s') := by
  induction p generalizing s with
  | pure | raise => rfl
  | op o k ih => exact ih _ _

@[simp] theorem run_ofExcept (x : Except ε α) (s : σ) :
    (Prog.ofExcept x : Prog Op Ans ε α).run exec s = (x, s) := by
  cases x <;> rfl

variable {exec}

variable {p : Prog Op Ans ε α} {f : α → Prog Op Ans ε β} {s : σ}

theorem run_bind_ok {a : α} {s' : σ} (h : p.run exec s = (.ok a, s')) :
    (p >>= f).run exec s = (f a).run exec s' := by
  rw [run_bind, h]

theorem run_bind_error {e : ε} {s' : σ} (h : p.run exec s = (.error e, s')) :
    (p >>= f).run exec s = (.error e, s') := by
  rw [run_bind, h]

theorem run_bind_of_ok {a : α} (h : (p.run exec s).1 = .ok a) :
    (p >>= f).run exec s = (f a).run exec (p.run exec s).2 :=
  run_bind_ok (Prod.ext h rfl)

theorem run_bind_of_error {e : ε} (h : (p.run exec s).1 = .error e) :
    (p >>= f).run exec s = (.error e, (p.run exec s).2) :=
  run_bind_error (Prod.ext h rfl)

theorem run_map (f : α → β) (p : Prog Op Ans ε α) (s : σ) :
    (f <$> p).run exec s = ((p.run exec s).1.map f, (p.run exec s).2) := by
  induction p generalizing s with
  | pure | raise => rfl
  | op o k ih => exact ih _ _

theorem run_map_snd (f : α → β) (p : Prog Op Ans ε α) (s : σ) :
    ((f <$> p).run exec s).2 = (p.run exec s).2 := by
  rw [run_map]

theorem run_handle (p : Prog Op Ans ε α) (h : ε → Prog Op Ans ε α) (s : σ) :
    (p.handle h).run exec s =
      match p.run exec s with
      | (.ok a, s') => (.ok a, s')
      | (.error e, s') => (h e).run exec s' := by
  induction p generalizing s with
  | pure | raise => rfl
  | op o k ih => exact ih _ _

theorem run_bind_eq_ok {b : β}
    (h : ((p >>= f).run exec s).1 = .ok b) :
    ∃ a, (p.run exec s).1 = .ok a ∧ (p >>= f).run exec s = (f a).run exec (p.run exec s).2 := by
  cases hp : (p.run exec s).1 with
  | error e =>
    rw [run_bind_of_error hp] at h
    cases h
  | ok a => exact ⟨a, rfl, run_bind_of_ok hp⟩

def Succeeds (exec : (o : Op) → σ → Ans o × σ) (p : Prog Op Ans ε α) (s : σ) : Prop :=
  ∃ a, (p.run exec s).1 = .ok a

theorem succeeds_pure (s : σ) : (Pure.pure a : Prog Op Ans ε α).Succeeds exec s := ⟨a, rfl⟩

theorem succeeds_bind_iff :
    (p >>= f).Succeeds exec s ↔
      ∃ a, (p.run exec s).1 = .ok a ∧ (f a).Succeeds exec (p.run exec s).2 := by
  constructor
  · rintro ⟨b, hb⟩
    obtain ⟨a, ha, hrun⟩ := run_bind_eq_ok hb
    exact ⟨a, ha, b, hrun ▸ hb⟩
  · rintro ⟨a, ha, b, hb⟩
    exact ⟨b, (congrArg Prod.fst (run_bind_of_ok ha)).trans hb⟩

/-- The program keeps a property of the state, whether it returns or raises. -/
def Preserves (exec : (o : Op) → σ → Ans o × σ) (Q : σ → Prop) (p : Prog Op Ans ε α) : Prop :=
  ∀ s, Q s → Q (p.run exec s).2

variable {Q : σ → Prop}

theorem Preserves.pure : (Pure.pure a : Prog Op Ans ε α).Preserves exec Q :=
  fun _ h => h

theorem Preserves.raise (e : ε) : (Prog.raise e : Prog Op Ans ε α).Preserves exec Q :=
  fun _ h => h

theorem Preserves.ofExcept (x : Except ε α) :
    (Prog.ofExcept x : Prog Op Ans ε α).Preserves exec Q := by
  intro s h
  rwa [run_ofExcept]

theorem Preserves.op {o : Op} {k : Ans o → Prog Op Ans ε α}
    (ho : ∀ s, Q s → Q (exec o s).2) (hk : ∀ x, (k x).Preserves exec Q) :
    (Prog.op o k).Preserves exec Q :=
  fun s h => hk _ _ (ho s h)

theorem Preserves.bind
    (hp : p.Preserves exec Q) (hf : ∀ a, (f a).Preserves exec Q) : (p >>= f).Preserves exec Q := by
  intro s h
  have hs := hp s h
  cases hres : (p.run exec s).1 with
  | error e =>
    rw [run_bind_of_error hres]
    exact hs
  | ok a =>
    rw [run_bind_of_ok hres]
    exact hf a _ hs

/-- The result of the program and the state that it leaves. -/
def Ends (exec : (o : Op) → σ → Ans o × σ) (post : Except ε α → σ → Prop) (p : Prog Op Ans ε α)
    (s : σ) : Prop :=
  post (p.run exec s).1 (p.run exec s).2

theorem Ends.mono {post post' : Except ε α → σ → Prop}
    (hp : p.Ends exec post s) (h : ∀ r s', post r s' → post' r s') : p.Ends exec post' s :=
  h _ _ hp

theorem Ends.bind {mid : Except ε α → σ → Prop} {post : Except ε β → σ → Prop}
    (hp : p.Ends exec mid s)
    (hf : ∀ a s', mid (.ok a) s' → (f a).Ends exec post s')
    (he : ∀ e s', mid (.error e) s' → post (.error e) s') : (p >>= f).Ends exec post s := by
  rw [Ends] at hp ⊢
  cases hres : (p.run exec s).1 with
  | error e =>
    rw [hres] at hp
    rw [run_bind_of_error hres]
    exact he e _ hp
  | ok a =>
    rw [hres] at hp
    rw [run_bind_of_ok hres]
    exact hf a _ hp

/-- The program returns, with a result and in a state that are as they should be. -/
def Gives (exec : (o : Op) → σ → Ans o × σ) (post : α → σ → Prop) (p : Prog Op Ans ε α)
    (s : σ) : Prop :=
  p.Ends exec (fun r s' => ∃ a, r = .ok a ∧ post a s') s

theorem Gives.pure {post : α → σ → Prop} {a : α} (h : post a s) :
    (Pure.pure a : Prog Op Ans ε α).Gives exec post s :=
  ⟨a, rfl, h⟩

theorem Gives.op {post : (a : α) → σ → Prop} {o : Op} {k : Ans o → Prog Op Ans ε α}
    (h : (k (exec o s).1).Gives exec post (exec o s).2) : (Prog.op o k).Gives exec post s := h

theorem Gives.then {mid : α → σ → Prop} {post : Except ε β → σ → Prop} (hp : p.Gives exec mid s)
    (hf : ∀ a s', mid a s' → (f a).Ends exec post s') : (p >>= f).Ends exec post s := by
  refine Ends.bind hp ?_ ?_
  · rintro a s' ⟨_, ⟨⟩, h⟩
    exact hf a s' h
  · rintro e s' ⟨_, ⟨⟩, -⟩

theorem Gives.bind {mid : α → σ → Prop} {post : β → σ → Prop} (hp : p.Gives exec mid s)
    (hf : ∀ a s', mid a s' → (f a).Gives exec post s') : (p >>= f).Gives exec post s :=
  hp.then hf

/-- If the program returns, then with a result and in a state that are as they should be. -/
def Yields (exec : (o : Op) → σ → Ans o × σ) (post : α → σ → Prop) (p : Prog Op Ans ε α)
    (s : σ) : Prop :=
  p.Ends exec (fun r s' => ∀ a, r = .ok a → post a s') s

theorem Yields.pure {post : α → σ → Prop} {a : α} (h : post a s) :
    (Pure.pure a : Prog Op Ans ε α).Yields exec post s := by
  rintro _ ⟨⟩
  exact h

theorem Yields.raise {post : α → σ → Prop} {e : ε} :
    (Prog.raise e : Prog Op Ans ε α).Yields exec post s := by
  rintro _ ⟨⟩

theorem Yields.bind {mid : α → σ → Prop} {post : β → σ → Prop} (hp : p.Yields exec mid s)
    (hf : ∀ a s', mid a s' → (f a).Yields exec post s') : (p >>= f).Yields exec post s := by
  refine Ends.bind hp (fun a s' h => hf a s' (h a rfl)) ?_
  rintro e s' - b ⟨⟩

def trace (exec : (o : Op) → σ → Ans o × σ) : Prog Op Ans ε α → σ → List Op
  | .pure _, _ => []
  | .raise _, _ => []
  | .op o k, s => o :: (k (exec o s).1).trace exec (exec o s).2

theorem trace_bind_of_ok {a : α}
    (h : (p.run exec s).1 = .ok a) :
    (p >>= f).trace exec s = p.trace exec s ++ (f a).trace exec (p.run exec s).2 := by
  induction p generalizing s with
  | pure b =>
    cases h
    rfl
  | raise e => cases h
  | op o k ih => exact congrArg (o :: ·) (ih _ h)

theorem trace_bind_of_error {e : ε}
    (h : (p.run exec s).1 = .error e) : (p >>= f).trace exec s = p.trace exec s := by
  induction p generalizing s with
  | pure a => cases h
  | raise e => rfl
  | op o k ih => exact congrArg (o :: ·) (ih _ h)

theorem forall_trace_bind {P : Op → Prop}
    (hp : ∀ o ∈ p.trace exec s, P o)
    (hf : ∀ a, (p.run exec s).1 = .ok a → ∀ o ∈ (f a).trace exec (p.run exec s).2, P o) :
    ∀ o ∈ (p >>= f).trace exec s, P o := by
  cases hres : (p.run exec s).1 with
  | error e =>
    rw [trace_bind_of_error hres]
    exact hp
  | ok a =>
    rw [trace_bind_of_ok hres]
    intro o ho
    rcases List.mem_append.1 ho with ho | ho
    · exact hp o ho
    · exact hf a hres o ho

end Run

section Sums

variable {Op₂ : Type u} {Ans₂ : Op₂ → Type v} {σ₁ σ₂ : Type*}

/-- A program of the first component as a program over both. -/
def inl : Prog Op Ans ε α → Prog (Op ⊕ Op₂) (Sum.elim Ans Ans₂) ε α
  | .pure a => .pure a
  | .raise e => .raise e
  | .op o k => .op (.inl o) fun x => (k x).inl

/-- Each operation acts on its own component; the second may look at the first. -/
def execSum (exec₁ : (o : Op) → σ₁ → Ans o × σ₁) (exec₂ : σ₁ → (o : Op₂) → σ₂ → Ans₂ o × σ₂) :
    (o : Op ⊕ Op₂) → σ₁ × σ₂ → Sum.elim Ans Ans₂ o × (σ₁ × σ₂)
  | .inl o, s => ((exec₁ o s.1).1, (exec₁ o s.1).2, s.2)
  | .inr o, s => ((exec₂ s.1 o s.2).1, s.1, (exec₂ s.1 o s.2).2)

variable {exec₁ : (o : Op) → σ₁ → Ans o × σ₁} {exec₂ : σ₁ → (o : Op₂) → σ₂ → Ans₂ o × σ₂}

@[simp] theorem run_inl (p : Prog Op Ans ε α) (s : σ₁ × σ₂) :
    (p.inl : Prog (Op ⊕ Op₂) (Sum.elim Ans Ans₂) ε α).run (execSum exec₁ exec₂) s =
      ((p.run exec₁ s.1).1, (p.run exec₁ s.1).2, s.2) := by
  induction p generalizing s with
  | pure | raise => rfl
  | op o k ih => exact ih _ _

end Sums

/-- A thread remembers its own run in `γ`. It guarantees something about each
operation it issues and may rely on the shape of the answers. -/
structure Contract (Op : Type u) (Ans : Op → Type v) (γ : Type*) where
  guar : γ → Op → Prop
  rely : (o : Op) → Ans o → Prop
  next : γ → (o : Op) → Ans o → γ

variable {γ : Type*} (c : Contract Op Ans γ)

/-- Every operation of the program keeps the guarantee and every outcome satisfies
the postcondition, whatever the answers are. -/
def Meets (post : γ → Except ε α → Prop) : γ → Prog Op Ans ε α → Prop
  | g, .pure a => post g (.ok a)
  | g, .raise e => post g (.error e)
  | g, .op o k => c.guar g o ∧ ∀ x, c.rely o x → (k x).Meets post (c.next g o x)

variable {c}

variable {g : γ} {p : Prog Op Ans ε α}

theorem Meets.mono {post post' : γ → Except ε α → Prop}
    (h : p.Meets c post g) (himp : ∀ g r, post g r → post' g r) : p.Meets c post' g := by
  induction p generalizing g with
  | pure | raise => exact himp _ _ h
  | op o k ih => exact ⟨h.1, fun x hx => ih x (h.2 x hx)⟩

variable {post : γ → Except ε α → Prop}

/-- One contract for another: what is remembered may differ, the guarantees follow, and so
do the answers that are relied on. -/
theorem Meets.transfer {γ' : Type*} {c' : Contract Op Ans γ'} (R : γ → γ' → Prop)
    {post' : γ' → Except ε α → Prop}
    (hop : ∀ g g' o, R g g' → c.guar g o →
      c'.guar g' o ∧ ∀ x, c'.rely o x → c.rely o x ∧ R (c.next g o x) (c'.next g' o x))
    (hpost : ∀ g g' r, R g g' → post g r → post' g' r) {g' : γ'}
    (h : p.Meets c post g) (hR : R g g') : p.Meets c' post' g' := by
  induction p generalizing g g' with
  | pure | raise => exact hpost _ _ _ hR h
  | op o k ih =>
    obtain ⟨hguar, hnext⟩ := hop g g' o hR h.1
    refine ⟨hguar, fun x hx => ?_⟩
    obtain ⟨hrely, hR'⟩ := hnext x hx
    exact ih x (h.2 x hrely) hR'

theorem Meets.bind {mid : γ → Except ε α → Prop} {post : γ → Except ε β → Prop}
    {f : α → Prog Op Ans ε β} (h : p.Meets c mid g)
    (hok : ∀ g a, mid g (.ok a) → (f a).Meets c post g)
    (herr : ∀ g e, mid g (.error e) → post g (.error e)) : (p >>= f).Meets c post g := by
  induction p generalizing g with
  | pure a => exact hok g a h
  | raise e => exact herr g e h
  | op o k ih => exact ⟨h.1, fun x hx => ih x (h.2 x hx)⟩

theorem Meets.map {post : γ → Except ε β → Prop} {f : α → β}
    (h : p.Meets c (fun g r => post g (r.map f)) g) : (f <$> p).Meets c post g :=
  Meets.bind h (fun _ _ h => h) fun _ _ h => h

theorem Meets.post_of_returned
    (h : p.Meets c post g) {a : α} (ha : p.returned = some a) : post g (.ok a) := by
  cases p with
  | pure b =>
    cases ha
    exact h
  | raise | op => cases ha

/-- Sequential soundness: a state predicate that every guaranteed operation keeps
holds at the end of the run, together with the postcondition. -/
theorem Meets.run {σ : Type*} {exec : (o : Op) → σ → Ans o × σ} (Inv : γ → σ → Prop)
    (hexec : ∀ g s o, Inv g s → c.guar g o →
      c.rely o (exec o s).1 ∧ Inv (c.next g o (exec o s).1) (exec o s).2) {s : σ}
    (h : p.Meets c post g) (hi : Inv g s) :
    ∃ g', Inv g' (p.run exec s).2 ∧ post g' (p.run exec s).1 := by
  induction p generalizing g s with
  | pure | raise => exact ⟨g, hi, h⟩
  | op o k ih =>
    obtain ⟨hrely, hnext⟩ := hexec g s o hi h.1
    exact ih _ (h.2 _ hrely) hnext

section Parts

variable {Op₂ : Type u} {Ans₂ : Op₂ → Type v}

/-- What a contract over two components asks of the first. -/
def Contract.left (c : Contract (Op ⊕ Op₂) (Sum.elim Ans Ans₂) γ) : Contract Op Ans γ where
  guar g o := c.guar g (.inl o)
  rely o x := c.rely (.inl o) x
  next g o x := c.next g (.inl o) x

theorem Meets.of_left {c : Contract (Op ⊕ Op₂) (Sum.elim Ans Ans₂) γ} {post : γ → Except ε α → Prop}
    {g : γ} {p : Prog Op Ans ε α} (h : p.Meets c.left post g) : p.inl.Meets c post g := by
  induction p generalizing g with
  | pure | raise => exact h
  | op o k ih => exact ⟨h.1, fun x hx => ih x (h.2 x hx)⟩

end Parts

theorem Meets.grows {R : γ → γ → Prop} (hrefl : ∀ g, R g g)
    (htrans : ∀ a b d, R a b → R b d → R a d)
    (hnext : ∀ g o x, R g (c.next g o x)) (h : p.Meets c post g) :
    p.Meets c (fun g' r => post g' r ∧ R g g') g := by
  induction p generalizing g with
  | pure | raise => exact ⟨h, hrefl g⟩
  | op o k ih =>
    refine ⟨h.1, fun x hx => (ih x (h.2 x hx)).mono ?_⟩
    intro g' r hpost
    exact ⟨hpost.1, htrans _ _ _ (hnext g o x) hpost.2⟩

/-- A contract that says nothing about the outcomes that raise. -/
def Returns (c : Contract Op Ans γ) (post : γ → α → Prop) (g : γ) (p : Prog Op Ans ε α) : Prop :=
  p.Meets c (fun g r => ∀ a, r = .ok a → post g a) g

theorem Returns.pure {post : γ → α → Prop} {a : α} (h : post g a) :
    (Pure.pure a : Prog Op Ans ε α).Returns c post g := by
  intro b hb
  cases hb
  exact h

theorem Returns.raise {post : γ → α → Prop} {e : ε} :
    (Prog.raise e : Prog Op Ans ε α).Returns c post g := by
  intro b hb
  cases hb

theorem Returns.ofExcept {post : γ → α → Prop} {x : Except ε α}
    (h : ∀ a, x = .ok a → post g a) : (Prog.ofExcept x : Prog Op Ans ε α).Returns c post g := by
  cases x with
  | error e => exact .raise
  | ok a => exact .pure (h a rfl)

theorem Returns.op {post : γ → α → Prop} {o : Op} {k : Ans o → Prog Op Ans ε α}
    (hguar : c.guar g o) (h : ∀ x, c.rely o x → (k x).Returns c post (c.next g o x)) :
    (Prog.op o k).Returns c post g :=
  ⟨hguar, h⟩

theorem Returns.mono {post post' : γ → α → Prop}
    (h : p.Returns c post g) (himp : ∀ g a, post g a → post' g a) : p.Returns c post' g :=
  Meets.mono h fun g _ hpost a ha => himp g a (hpost a ha)

variable {q : γ → α → Prop}

theorem Returns.bind {post : γ → β → Prop}
    {f : α → Prog Op Ans ε β} (h : p.Returns c q g)
    (hok : ∀ g a, q g a → (f a).Returns c post g) : (p >>= f).Returns c post g := by
  apply Meets.bind h
  · intro g a hq
    exact hok g a (hq a rfl)
  · intro g e _ a ha
    cases ha

theorem Returns.handle {h : ε → Prog Op Ans ε α}
    (hp : p.Returns c q g) (hh : ∀ g e, (h e).Returns c q g) : (p.handle h).Returns c q g := by
  induction p generalizing g with
  | pure a => exact hp
  | raise e => exact hh g e
  | op o k ih => exact .op hp.1 fun x hx => ih x (hp.2 x hx)

theorem Returns.post_of_returned {post : γ → α → Prop}
    (h : p.Returns c post g) {a : α} (ha : p.returned = some a) : post g a :=
  Meets.post_of_returned h ha a rfl

theorem Returns.map {post : γ → β → Prop}
    {f : α → β} (h : p.Returns c q g) (hok : ∀ g a, q g a → post g (f a)) :
    (f <$> p).Returns c post g :=
  h.bind fun g a hq => .pure (hok g a hq)

end Prog

/-- Threads share one state. The log records each operation with the thread that
issued it and the answer it received. -/
structure Pool (ι σ : Type*) (Op : Type u) (Ans : Op → Type v) (ε α : Type w) where
  state : σ
  threads : ι → Prog Op Ans ε α
  log : List (ι × (o : Op) × Ans o)

namespace Pool

variable {ι σ : Type*} [DecidableEq ι] {Op : Type u} {Ans : Op → Type v} {ε α : Type w}
variable (exec : (o : Op) → σ → Ans o × σ)

/-- Thread `i` executes its next operation; a finished thread does nothing. -/
def step (pool : Pool ι σ Op Ans ε α) (i : ι) : Pool ι σ Op Ans ε α :=
  match pool.threads i with
  | .op o k =>
    { state := (exec o pool.state).2
      threads := Function.update pool.threads i (k (exec o pool.state).1)
      log := pool.log ++ [(i, ⟨o, (exec o pool.state).1⟩)] }
  | _ => pool

/-- A schedule names the thread that moves at each step. -/
def run (pool : Pool ι σ Op Ans ε α) (schedule : List ι) : Pool ι σ Op Ans ε α :=
  schedule.foldl (step exec) pool

@[simp] theorem run_nil (pool : Pool ι σ Op Ans ε α) : pool.run exec [] = pool := rfl

@[simp] theorem run_cons (pool : Pool ι σ Op Ans ε α) (i : ι) (schedule : List ι) :
    pool.run exec (i :: schedule) = (pool.step exec i).run exec schedule := rfl

variable {pool : Pool ι σ Op Ans ε α}

theorem step_of_op {i : ι} {o : Op} {k : Ans o → Prog Op Ans ε α}
    (h : pool.threads i = .op o k) :
    pool.step exec i =
      { state := (exec o pool.state).2
        threads := Function.update pool.threads i (k (exec o pool.state).1)
        log := pool.log ++ [(i, ⟨o, (exec o pool.state).1⟩)] } := by
  rw [step, h]

theorem step_cases (pool : Pool ι σ Op Ans ε α) (i : ι) :
    pool.step exec i = pool ∨
      ∃ o k, pool.threads i = .op o k ∧
        pool.step exec i =
          { state := (exec o pool.state).2
            threads := Function.update pool.threads i (k (exec o pool.state).1)
            log := pool.log ++ [(i, ⟨o, (exec o pool.state).1⟩)] } := by
  cases h : pool.threads i with
  | pure | raise => exact .inl (by rw [step, h])
  | op o k => exact .inr ⟨o, k, rfl, step_of_op exec h⟩

theorem step_threads_of_ne (pool : Pool ι σ Op Ans ε α) {i j : ι} (h : j ≠ i) :
    (pool.step exec i).threads j = pool.threads j := by
  rcases pool.step_cases exec i with he | ⟨o, k, _, he⟩
  · rw [he]
  · rw [he]
    exact Function.update_of_ne h _ _

/-- The condition holds at every step of the schedule, in the pool the step is taken
from. -/
abbrev Throughout (side : Pool ι σ Op Ans ε α → ι → Prop) (pool : Pool ι σ Op Ans ε α)
    (schedule : List ι) : Prop :=
  Along (step exec) side pool schedule

/-- What thread `i` remembers of the log. -/
def memory {γ : Type*} (next : γ → (o : Op) → Ans o → γ) (i : ι) (g : γ)
    (log : List (ι × (o : Op) × Ans o)) : γ :=
  log.foldl (fun g e => if e.1 = i then next g e.2.1 e.2.2 else g) g

@[simp] theorem memory_nil {γ : Type*} (next : γ → (o : Op) → Ans o → γ) (i : ι) (g : γ) :
    memory next i g [] = g := rfl

theorem memory_append_self {γ : Type*} (next : γ → (o : Op) → Ans o → γ) (i : ι) (g : γ)
    (log : List (ι × (o : Op) × Ans o)) (o : Op) (x : Ans o) :
    memory next i g (log ++ [(i, ⟨o, x⟩)]) = next (memory next i g log) o x := by
  simp [memory]

theorem memory_append_other {γ : Type*} (next : γ → (o : Op) → Ans o → γ) {i j : ι} (h : j ≠ i)
    (g : γ) (log : List (ι × (o : Op) × Ans o)) (o : Op) (x : Ans o) :
    memory next i g (log ++ [(j, ⟨o, x⟩)]) = memory next i g log := by
  simp [memory, h]

variable {γ : Type*} {c : ι → Prog.Contract Op Ans γ} {post : ι → γ → Except ε α → Prop}

variable {i : ι} {o : Op} {k : Ans o → Prog Op Ans ε α} (ht : pool.threads i = .op o k)

include ht in
theorem memory_step (c : ι → Prog.Contract Op Ans γ) (g : γ) (j : ι) :
    memory (c j).next j g (pool.step exec i).log =
      if j = i then (c i).next (memory (c i).next i g pool.log) o (exec o pool.state).1
      else memory (c j).next j g pool.log := by
  rw [step_of_op exec ht]
  split
  · rename_i hj
    subst hj
    exact memory_append_self _ _ _ _ _ _
  · rename_i hj
    exact memory_append_other _ (Ne.symm hj) _ _ _ _

/-- Every thread meets its contract from what it remembers. -/
def Honest (c : ι → Prog.Contract Op Ans γ) (post : ι → γ → Except ε α → Prop) (g₀ : γ)
    (pool : Pool ι σ Op Ans ε α) : Prop :=
  ∀ i, (pool.threads i).Meets (c i) (post i) (memory (c i).next i g₀ pool.log)

include ht in
theorem Honest.step_of_op {g₀ : γ} (h : pool.Honest c post g₀)
    (hrely : (c i).rely o (exec o pool.state).1) : (pool.step exec i).Honest c post g₀ := by
  have hi := h i
  rw [ht] at hi
  rw [Pool.step_of_op exec ht]
  intro j
  by_cases hj : j = i
  · subst j
    simp only [Function.update_self, memory_append_self]
    exact hi.2 _ hrely
  · simp only [Function.update_of_ne hj, memory_append_other _ (Ne.symm hj)]
    exact h j

/-- Concurrent soundness: contracts are kept under every interleaving, provided
the answers the shared state gives are those the threads rely on. -/
theorem Honest.step {g₀ : γ} (h : pool.Honest c post g₀) (i : ι)
    (hrely : ∀ o, (c i).guar (memory (c i).next i g₀ pool.log) o →
      (c i).rely o (exec o pool.state).1) :
    (pool.step exec i).Honest c post g₀ := by
  rcases pool.step_cases exec i with he | ⟨o, k, ht, -⟩
  · rwa [he]
  · have hi := h i
    rw [ht] at hi
    exact h.step_of_op exec ht (hrely o hi.1)

/-- The contract that only records the operations with their answers. -/
def recording : Prog.Contract Op Ans (List ((o : Op) × Ans o)) where
  guar := fun _ _ => True
  rely := fun _ _ => True
  next := fun done o x => done ++ [⟨o, x⟩]

theorem returns_recording (p : Prog Op Ans ε α) (done : List ((o : Op) × Ans o)) :
    p.Returns recording (fun _ _ => True) done := by
  induction p generalizing done with
  | pure a => exact .pure trivial
  | raise e => exact .raise
  | op o k ih => exact .op trivial fun x _ => ih x _

theorem returns_recorded (p : Prog Op Ans ε α) {done : List ((o : Op) × Ans o)}
    {e : (o : Op) × Ans o} (h : e ∈ done) :
    p.Returns recording (fun done' _ => e ∈ done') done := by
  induction p generalizing done with
  | pure a => exact .pure h
  | raise e => exact .raise
  | op o k ih => exact .op trivial fun x _ => ih x (List.mem_append_left _ h)

theorem mem_recorded_iff (i : ι) (log : List (ι × (o : Op) × Ans o)) (e : (o : Op) × Ans o) :
    e ∈ memory recording.next i [] log ↔ (i, e) ∈ log := by
  induction log using List.reverseRecOn with
  | nil => simp
  | append_singleton log entry ih =>
    obtain ⟨j, o, x⟩ := entry
    by_cases hj : j = i
    · subst j
      rw [memory_append_self]
      simp [recording, ← ih]
    · rw [memory_append_other _ hj, ih]
      simp [Ne.symm hj]

theorem post_of_recorded {post : ι → List ((o : Op) × Ans o) → α → Prop} (hlog : pool.log = [])
    (h : ∀ i, (pool.threads i).Returns recording (post i) []) (schedule : List ι) {i : ι} {a : α}
    (ha : ((pool.run exec schedule).threads i).returned = some a) :
    post i (memory recording.next i [] (pool.run exec schedule).log) a := by
  have hstart : pool.Honest (fun _ => recording) (fun i m r => ∀ a, r = .ok a → post i m a) [] := by
    intro j
    rw [hlog]
    exact h j
  have hrun : (pool.run exec schedule).Honest (fun _ => recording)
      (fun i m r => ∀ a, r = .ok a → post i m a) [] := by
    clear hlog h ha
    induction schedule generalizing pool with
    | nil => exact hstart
    | cons j rest ih => exact ih (Honest.step exec hstart j fun _ _ => trivial)
  exact Prog.Returns.post_of_returned (hrun i) ha

end Pool

end Effects
