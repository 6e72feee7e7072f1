import Mathlib.Data.List.Basic

/-! Runs of a step function over a list of inputs, and conditions that are asked of every
step of a run, in the state the step is taken from. -/

namespace Effects

variable {σ κ : Type*} (step : σ → κ → σ)

/-- The condition holds at every step of the run. -/
def Along (side : σ → κ → Prop) : σ → List κ → Prop
  | _, [] => True
  | s, x :: rest => side s x ∧ Along side (step s x) rest

instance Along.decidable (side : σ → κ → Prop) [∀ s x, Decidable (side s x)] :
    ∀ (inputs : List κ) (s : σ), Decidable (Along step side s inputs)
  | [], _ => .isTrue trivial
  | x :: rest, s =>
    haveI := Along.decidable side rest (step s x)
    inferInstanceAs (Decidable (side s x ∧ Along step side (step s x) rest))

variable {step}

theorem Along.invariant (Inv : σ → Prop) {side : σ → κ → Prop}
    (hstep : ∀ s x, Inv s → side s x → Inv (step s x)) {s : σ} (h : Inv s) {inputs : List κ}
    (hside : Along step side s inputs) : Inv (inputs.foldl step s) := by
  induction inputs generalizing s with
  | nil => exact h
  | cons x rest ih => exact ih (hstep s x h hside.1) hside.2

theorem Along.congr (Inv : σ → Prop) {side side' : σ → κ → Prop}
    (hstep : ∀ s x, Inv s → Inv (step s x)) (hside : ∀ s x, Inv s → (side s x ↔ side' s x))
    {s : σ} (h : Inv s) (inputs : List κ) :
    Along step side s inputs ↔ Along step side' s inputs := by
  induction inputs generalizing s with
  | nil => exact Iff.rfl
  | cons x rest ih => exact and_congr (hside s x h) (ih (hstep s x h))

theorem Along.mono {side side' : σ → κ → Prop} (hside : ∀ s x, side s x → side' s x) {s : σ}
    {inputs : List κ} (h : Along step side s inputs) : Along step side' s inputs := by
  induction inputs generalizing s with
  | nil => trivial
  | cons x rest ih => exact ⟨hside s x h.1, ih h.2⟩

theorem Along.and_forall {side : σ → κ → Prop} {K : κ → Prop} {s : σ} {inputs : List κ}
    (h : Along step side s inputs) (hK : ∀ x ∈ inputs, K x) :
    Along step (fun s x => side s x ∧ K x) s inputs := by
  induction inputs generalizing s with
  | nil => trivial
  | cons x rest ih =>
    exact ⟨⟨h.1, hK x List.mem_cons_self⟩, ih h.2 fun y hy => hK y (List.mem_cons_of_mem _ hy)⟩

end Effects
