import Mathlib.Tactic.Common
import OmniDoer.Library.Runs
import OmniDoer.Model.AgentControl

/-! # How many agents run at once

The check of a turn does not count the turns that have passed it and take their guards
later. -/

namespace OmniDoer.AgentControl

open Effects Finset

namespace Turns

variable {ι : Type} [DecidableEq ι] {s : Turns ι} {n : ℕ}

/-- A check that passes leaves room for the turns that have passed before it and are still to
take their guards. -/
def Accounted (s : Turns ι) : TurnStep ι → Prop
  | .check _ => s.limiter.hasCapacity = true → s.limiter.active + s.checked.card < s.limiter.limit
  | _ => True

instance (s : Turns ι) (x : TurnStep ι) : Decidable (s.Accounted x) := by
  cases x <;> unfold Accounted <;> infer_instance

structure Within (n : ℕ) (s : Turns ι) : Prop where
  limit : s.limiter.maxThreads = some n
  active : s.limiter.active = s.running.card
  apart : Disjoint s.checked s.running
  bound : s.running.card + s.checked.card ≤ n

theorem Within.step (h : Within n s) {x : TurnStep ι} (hx : s.Accounted x) :
    Within n (s.step x) := by
  have hlimit : s.limiter.limit = n := by
    rw [AgentExecutionLimiter.limit, h.limit, Option.getD_some]
  have hlimited : isExecutionLimited .v2 .subAgent = true := rfl
  cases x with
  | check turn =>
    by_cases hcapacity : s.limiter.hasCapacity = true
    · have hroom := hx hcapacity
      rw [hlimit, h.active] at hroom
      simp only [Turns.step, ensureExecutionCapacity, hlimited, hcapacity, Bool.not_true,
        if_true, if_false, Bool.false_eq_true]
      split
      · exact h
      · rename_i hturn
        have hcard := card_insert_le turn s.checked
        exact ⟨h.limit, h.active, disjoint_insert_left.2 ⟨hturn, h.apart⟩, by dsimp only; omega⟩
    · simpa [Turns.step, ensureExecutionCapacity, hlimited, hcapacity] using h
  | guard turn =>
    simp only [Turns.step, executionGuard, hlimited, if_true]
    split
    · rename_i hturn
      have hnew : turn ∉ s.running := disjoint_left.1 h.apart hturn
      have hcard := card_erase_add_one hturn
      have hbound := h.bound
      refine ⟨h.limit, ?_, ?_, ?_⟩
      · rw [card_insert_of_notMem hnew, AgentExecutionLimiter.guard, h.active]
      · rw [disjoint_insert_right]
        exact ⟨notMem_erase turn _, h.apart.mono_left (erase_subset _ _)⟩
      · dsimp only
        rw [card_insert_of_notMem hnew]
        omega
    · exact h
  | finish turn =>
    rw [Turns.step]
    split
    · rename_i hturn
      have hcard := card_erase_add_one hturn
      have hactive := h.active
      have hbound := h.bound
      refine ⟨h.limit, ?_, h.apart.mono_right (erase_subset _ _), ?_⟩
      · simp only [AgentExecutionLimiter.dropGuard]
        omega
      · dsimp only
        omega
    · exact h

/-- When every check accounts for the turns that are about to start, the guards are never more
than the limit, and the counter counts them. -/
theorem running_within_limit (n : ℕ) (steps : List (TurnStep ι))
    (h : Along step Accounted (start ι n) steps) :
    (steps.foldl step (start ι n)).running.card ≤ n ∧
      (steps.foldl step (start ι n)).running.card =
        (steps.foldl step (start ι n)).limiter.active := by
  have hwithin : Within n (steps.foldl step (start ι n)) :=
    h.invariant (Within n) (fun _ _ h hx => h.step hx) ⟨rfl, rfl, disjoint_empty_left _,
      Nat.zero_le _⟩
  exact ⟨(Nat.le_add_right _ _).trans hwithin.bound, hwithin.active.symm⟩

/-- One turn after the other. -/
theorem running_within_limit_in_turn :
    let s := [.check true, .guard true, .finish true, .check false,
        .guard false].foldl step (start Bool 1)
    s.running = {false} ∧ s.running.card ≤ 1 :=
  ⟨by decide +kernel, (running_within_limit 1 _ (by decide +kernel)).1⟩

/-- Both turns pass the check before the first takes its guard. -/
theorem two_turns_run :
    ([.check true, .check false, .guard true, .guard false].foldl step
      (start Bool 1)).running.card = 2 := by
  decide +kernel

end Turns

end OmniDoer.AgentControl
