import Mathlib.Order.Lattice
import Mathlib.Data.List.Infix

/-! Rules at the nodes of a tree of names. The nearest rule at or above a node decides about it, and
of several rules at one node the greatest. -/

namespace Rules

variable {α β : Type*} [LinearOrder β] {R S : List α → β → Prop} {p q x : List α} {b : β}

/-- The rule at `q` with value `b` decides about `p`. -/
structure Nearest (R : List α → β → Prop) (p q : List α) (b : β) : Prop where
  above : q <+: p
  rule : R q b
  greatest : ∀ c, R q c → c ≤ b
  nearest : ∀ y c, R y c → y <+: p → y <+: q

namespace Nearest

theorem antisymm (h : q <+: x) (h' : x <+: q) : q = x := h.eq_of_length_le h'.length_le

theorem unique {q' : List α} {b' : β} (h : Nearest R p q b) (h' : Nearest R p q' b') :
    q = q' ∧ b = b' := by
  have hq : q = q' := antisymm (h'.nearest q b h.rule h.above) (h.nearest q' b' h'.rule h'.above)
  subst hq
  exact ⟨rfl, le_antisymm (h'.greatest b h.rule) (h.greatest b' h'.rule)⟩

theorem between (h : Nearest R p q b) (hq : q <+: x) (hx : x <+: p) : Nearest R x q b where
  above := hq
  rule := h.rule
  greatest := h.greatest
  nearest y c hy hyx := h.nearest y c hy (hyx.trans hx)

theorem self (h : Nearest R p q b) : Nearest R q q b := h.between (List.prefix_refl q) h.above

theorem anti (h : Nearest R p q b) (hsub : ∀ y c, y <+: p → S y c → R y c) (hq : S q b) :
    Nearest S p q b where
  above := h.above
  rule := hq
  greatest c hc := h.greatest c (hsub q c h.above hc)
  nearest y c hy hyp := h.nearest y c (hsub y c hyp hy) hyp

end Nearest

/-- Of two nodes on one path, the first is above the second one's parent or below the second. -/
theorem above_or_below_child {n : α} (hq : q <+: p) (hchild : x ++ [n] <+: p) :
    q <+: x ∨ x ++ [n] <+: q := by
  rcases List.prefix_or_prefix_of_prefix hq hchild with h | h
  · rcases List.prefix_concat_iff.1 h with rfl | h
    · exact .inr (List.prefix_refl _)
    · exact .inl h
  · exact .inr h

end Rules
