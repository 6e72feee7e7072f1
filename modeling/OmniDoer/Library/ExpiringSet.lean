import OmniDoer.Library.Table
import Mathlib.Order.Defs.LinearOrder
import Mathlib.Order.Lattice

/-! Sets whose members expire. A key is admitted only while no live entry holds it, and
it then holds the key until its own expiry. Entries that have expired are dropped
whenever a key is admitted. -/

namespace Tables

open List

structure Entry (κ τ : Type*) where
  key : κ
  expiresAt : τ
  deriving DecidableEq, Repr

abbrev ExpiringSet (κ τ : Type*) [DecidableEq κ] := Table (Entry.key : Entry κ τ → κ)

/-- A key presented at a time, with the expiry it is to have when it is admitted. -/
structure Attempt (κ τ : Type*) where
  key : κ
  now : τ
  expiresAt : τ

namespace ExpiringSet

variable {κ τ : Type*} [DecidableEq κ] [LinearOrder τ]

def live (s : ExpiringSet κ τ) (now : τ) : ExpiringSet κ τ :=
  s.filter fun e => decide (now < e.expiresAt)

/-- The set after the key is admitted, or nothing when a live entry holds it. -/
def enter (s : ExpiringSet κ τ) (a : Attempt κ τ) : Option (ExpiringSet κ τ) :=
  if ((s.live a.now).lookup a.key).isSome then none
  else some ((s.live a.now).insert ⟨a.key, a.expiresAt⟩)

section

variable {s : ExpiringSet κ τ} {now : τ} {e : Entry κ τ} {k : κ} (h : s.lookup k = some e)
include h

theorem lookup_live_of_lt (hlt : now < e.expiresAt) : (s.live now).lookup k = some e := by
  rw [live, Table.lookup_filter, h, Option.filter_some, if_pos (by simpa using hlt)]

theorem lookup_live_of_le (hle : e.expiresAt ≤ now) : (s.live now).lookup k = none := by
  rw [live, Table.lookup_filter, h, Option.filter_some, if_neg (by simpa using hle)]

end

theorem enter_eq_some {s s' : ExpiringSet κ τ} {a : Attempt κ τ} :
    s.enter a = some s' ↔
      (s.live a.now).lookup a.key = none ∧ (s.live a.now).insert ⟨a.key, a.expiresAt⟩ = s' := by
  unfold enter
  cases (s.live a.now).lookup a.key <;> simp

theorem enter_of_live {s s' : ExpiringSet κ τ} {a : Attempt κ τ} {e : Entry κ τ} {k : κ}
    (h : s.enter a = some s') (hk : s.lookup k = some e) (hlt : a.now < e.expiresAt) :
    a.key ≠ k ∧ s'.lookup k = some e := by
  obtain ⟨hnone, rfl⟩ := enter_eq_some.1 h
  have hlive := lookup_live_of_lt hk hlt
  have hne : a.key ≠ k := by
    rintro rfl
    rw [hlive] at hnone
    cases hnone
  refine ⟨hne, ?_⟩
  rw [Table.lookup_insert, if_neg (Ne.symm hne), hlive]

section Runs

variable {β : Type*} (attempt : β → Attempt κ τ)

/-- The attempts of a run in order, each with whether it was admitted; an attempt that
is turned down leaves the set as it is. -/
inductive Run (s₀ : ExpiringSet κ τ) : List (β × Bool) → ExpiringSet κ τ → Prop
  | nil : Run s₀ [] s₀
  | admitted {l s s' b} : Run s₀ l s → s.enter (attempt b) = some s' → Run s₀ (l ++ [(b, true)]) s'
  | refused {l s b} : Run s₀ l s → Run s₀ (l ++ [(b, false)]) s

variable {attempt}

def InOrder (attempt : β → Attempt κ τ) (l : List (β × Bool)) : Prop :=
  l.Pairwise fun x y => (attempt x.1).now ≤ (attempt y.1).now

instance (attempt : β → Attempt κ τ) (l : List (β × Bool)) : Decidable (InOrder attempt l) :=
  inferInstanceAs (Decidable (l.Pairwise _))

section

variable {s₀ s : ExpiringSet κ τ} {l : List (β × Bool)} (h : Run attempt s₀ l s)
include h

theorem Run.lookup (horder : InOrder attempt l) {b : β} (hb : (b, true) ∈ l)
    (hlive : ∀ x ∈ l, (attempt x.1).now < (attempt b).expiresAt) :
    s.lookup (attempt b).key = some ⟨(attempt b).key, (attempt b).expiresAt⟩ := by
  induction h with
  | nil => cases hb
  | @admitted l s s' c hrun henter ih =>
    rw [InOrder, pairwise_append] at horder
    simp only [mem_append, mem_singleton, Prod.mk.injEq, and_true] at hb hlive
    rcases hb with hb | rfl
    · have hkept := ih horder.1 hb fun x hx => hlive x (.inl hx)
      exact (enter_of_live henter hkept (hlive (c, true) (.inr rfl))).2
    · obtain ⟨_, rfl⟩ := enter_eq_some.1 henter
      exact Table.lookup_insert_self _ _
  | @refused l s c hrun ih =>
    rw [InOrder, pairwise_append] at horder
    simp only [mem_append, mem_singleton, Prod.mk.injEq, Bool.true_eq_false, and_false,
      or_false] at hb hlive
    exact ih horder.1 hb fun x hx => hlive x (.inl hx)

theorem Run.apart (horder : InOrder attempt l) :
    l.Pairwise fun x y => x.2 = true → y.2 = true → (attempt x.1).key = (attempt y.1).key →
      (attempt x.1).expiresAt ≤ (attempt y.1).now := by
  induction h with
  | nil => exact Pairwise.nil
  | @admitted l s s' c hrun henter ih =>
    rw [InOrder, pairwise_append] at horder
    rw [pairwise_append]
    refine ⟨ih horder.1, pairwise_singleton .., ?_⟩
    rintro ⟨b, _⟩ hb y hy rfl - hkey
    rw [mem_singleton] at hy
    subst hy
    by_contra hlt
    rw [not_le] at hlt
    -- the entry of `b` would still be in the set, live, when `c` is presented
    have hkept := hrun.lookup horder.1 hb fun x hx =>
      (horder.2.2 x hx _ (mem_singleton_self _)).trans_lt hlt
    exact (enter_of_live henter hkept hlt).1 hkey.symm
  | @refused l s c hrun ih =>
    rw [InOrder, pairwise_append] at horder
    rw [pairwise_append]
    refine ⟨ih horder.1, pairwise_singleton .., ?_⟩
    rintro x _ y hy _ hfalse
    rw [mem_singleton] at hy
    rw [hy] at hfalse
    cases hfalse

end

end Runs

end ExpiringSet

end Tables
