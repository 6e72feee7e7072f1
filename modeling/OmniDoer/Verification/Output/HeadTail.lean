import Mathlib.Tactic.Common
import OmniDoer.Model.HeadTailBuffer

/-! # The head/tail buffer depends on the bytes only

Whatever pieces the bytes come in, the buffer is the one that `holding` computes from all of
them at once. A drained buffer with omissions brings a full head and a full tail, so its gap
falls behind the head and before the tail of the buffer that takes it. -/

namespace OmniDoer.UnifiedExec.HeadTailBuffer

open List

/-- The buffer of the given capacity after the bytes `s`. -/
def holding (m : ℕ) (s : List UInt8) : HeadTailBuffer where
  maxBytes := m
  headBudget := m / 2
  tailBudget := m - m / 2
  head := s.take (m / 2)
  tail := (s.drop (m / 2)).rtake (m - m / 2)
  omittedBytes := s.length - m

theorem length_rtake {α : Type*} (l : List α) (n : ℕ) : (l.rtake n).length = min n l.length := by
  rw [rtake, length_drop]
  omega

theorem rtake_append_of_le {α : Type*} {l r : List α} {n : ℕ} (h : n ≤ r.length) :
    (l ++ r).rtake n = r.rtake n := by
  rw [rtake, rtake, length_append, Nat.add_sub_assoc h, drop_length_add_append]

theorem rtake_rtake_append {α : Type*} (l r : List α) (n : ℕ) :
    (l.rtake n ++ r).rtake n = (l ++ r).rtake n := by
  by_cases hn : n ≤ l.length
  · have hl : l.take (l.length - n) ++ l.rtake n = l := take_append_drop _ _
    have hlong : n ≤ (l.rtake n ++ r).length := by
      rw [length_append, length_rtake]
      omega
    rw [← rtake_append_of_le (l := l.take (l.length - n)) hlong, ← append_assoc, hl]
  · have hl : l.rtake n = l := by rw [rtake, Nat.sub_eq_zero_of_le (by omega), drop_zero]
    rw [hl]

theorem pushToTail_eq (b : HeadTailBuffer) (chunk : List UInt8) (h : b.tail.length ≤ b.tailBudget) :
    b.pushToTail chunk = { b with
      tail := (b.tail ++ chunk).rtake b.tailBudget
      omittedBytes := b.omittedBytes + (b.tail.length + chunk.length - b.tailBudget) } := by
  rw [pushToTail]
  split_ifs with hempty hbudget hlong
  · rw [isEmpty_iff.1 hempty, append_nil, rtake, Nat.sub_eq_zero_of_le h]
    simp [h]
  · have htail : b.tail = [] := length_eq_zero_iff.1 (by omega)
    simp [hbudget, htail, rtake]
  · rw [rtake_append_of_le hlong]
    simp only [rtake, length_drop, Nat.add_assoc]
    congr 2
    omega
  · simp only [trimTailToBudget, length_append]
    split_ifs with hexcess
    · rw [rtake, length_append]
    · rw [rtake, length_append, Nat.eq_zero_of_not_pos hexcess]
      rfl

theorem pushChunk_holding (m : ℕ) (s chunk : List UInt8) :
    (holding m s).pushChunk chunk = holding m (s ++ chunk) := by
  rw [pushChunk]
  split_ifs with hempty hmax
  · rw [isEmpty_iff.1 hempty, append_nil]
  · cases (show m = 0 from hmax)
    simp [holding]
  · have hhead : min (m / 2 - (s.take (m / 2)).length) chunk.length =
        min (m / 2 - s.length) chunk.length := by
      rw [length_take]
      omega
    have hdrop : chunk.drop (min (m / 2 - s.length) chunk.length) =
        chunk.drop (m / 2 - s.length) := by
      rcases le_total (m / 2 - s.length) chunk.length with hle | hle
      · rw [min_eq_left hle]
      · rw [min_eq_right hle, drop_length, drop_eq_nil_of_le hle]
    simp only [holding, hhead, ← take_eq_take_min, hdrop]
    rw [pushToTail_eq]
    · simp only [rtake_rtake_append, ← drop_append, ← take_append, length_rtake, length_append,
        length_drop]
      congr 1
      omega
    · exact (length_rtake _ _).trans_le (min_le_left _ _)

theorem holding_gap {m : ℕ} {p q : List UInt8} (hp : p.length = m / 2)
    (hq : q.length = m - m / 2) (s gap : List UInt8) :
    { holding m (s ++ p ++ q) with
        omittedBytes := (holding m (s ++ p ++ q)).omittedBytes + gap.length } =
      holding m (s ++ (p ++ gap ++ q)) := by
  have hle : m / 2 ≤ (s ++ p).length := by simp [hp]
  have hall : s ++ (p ++ gap ++ q) = s ++ p ++ (gap ++ q) := by simp
  rw [hall]
  simp only [holding, mk.injEq, true_and, take_append_of_le_length hle,
    drop_append_of_le_length hle]
  constructor
  · rw [rtake_append_of_le hq.ge, rtake_append_of_le (by rw [length_append]; omega),
      rtake_append_of_le hq.ge]
  · simp only [length_append]
    omega

theorem pushBuffer_holding (m : ℕ) (s s' : List UInt8) :
    (holding m s).pushBuffer (holding m s') = holding m (s ++ s') := by
  rw [pushBuffer]
  simp only [pushChunk_holding]
  by_cases hfits : s'.length ≤ m
  · have hall : (s'.drop (m / 2)).rtake (m - m / 2) = s'.drop (m / 2) := by
      rw [rtake, length_drop, Nat.sub_eq_zero_of_le (by omega), drop_zero]
    have hnone : (holding m s').omittedBytes = 0 := Nat.sub_eq_zero_of_le hfits
    rw [hnone]
    simp only [holding, hall, append_assoc, take_append_drop, Nat.add_zero]
  · have hs' : s'.take (m / 2) ++ (s'.drop (m / 2)).rdrop (m - m / 2) ++
        (s'.drop (m / 2)).rtake (m - m / 2) = s' := by
      rw [append_assoc, rdrop, rtake, take_append_drop, take_append_drop]
    have hhead : (s'.take (m / 2)).length = m / 2 := by
      rw [length_take]
      omega
    have htail : ((s'.drop (m / 2)).rtake (m - m / 2)).length = m - m / 2 := by
      rw [length_rtake, length_drop]
      omega
    have hgap := holding_gap hhead htail s ((s'.drop (m / 2)).rdrop (m - m / 2))
    have hcount : ((s'.drop (m / 2)).rdrop (m - m / 2)).length = s'.length - m := by
      rw [rdrop, length_take, length_drop]
      omega
    rw [hs', hcount] at hgap
    exact hgap

/-- The buffers of a capacity with the bytes that they have observed since they were new or
last drained. -/
inductive Observed (m : ℕ) : List UInt8 → HeadTailBuffer → Prop
  | new : Observed m [] (new m)
  | pushChunk {s b} (h : Observed m s b) (chunk : List UInt8) :
    Observed m (s ++ chunk) (b.pushChunk chunk)
  | pushBuffer {s b s' b'} (h : Observed m s b) (h' : Observed m s' b') :
    Observed m (s ++ s') (b.pushBuffer b'.drain.1)
  | drained {s b} (h : Observed m s b) : Observed m [] b.drain.2

theorem Observed.eq_holding {m : ℕ} {s : List UInt8} {b : HeadTailBuffer}
    (h : Observed m s b) : b = holding m s := by
  induction h with
  | new => simp [HeadTailBuffer.new, holding, rtake]
  | pushChunk _ chunk ih => rw [ih, pushChunk_holding]
  | pushBuffer _ _ ih ih' => rw [ih, ih', drain, pushBuffer_holding]
  | drained _ ih => rw [ih]; simp [drain, holding, rtake]

/-- However the bytes reach it, in chunks and in drained buffers of its capacity, the buffer
holds the first and the last of them and counts the others. -/
theorem head_and_tail_kept {m : ℕ} {s : List UInt8} {b : HeadTailBuffer}
    (h : Observed m s b) :
    b.headBudget = m / 2 ∧ b.tailBudget = m - m / 2 ∧
      b.head = s.take (min b.headBudget s.length) ∧
      b.tail = s.rtake (min b.tailBudget (s.length - min b.headBudget s.length)) ∧
      b.omittedBytes = s.length - min b.headBudget s.length -
        min b.tailBudget (s.length - min b.headBudget s.length) := by
  rw [h.eq_holding]
  refine ⟨rfl, rfl, ?_, ?_, ?_⟩
  · exact (take_eq_take_min ..)
  · simp only [holding, rtake, drop_drop, length_drop]
    rcases le_total s.length (m / 2) with hle | hle
    · rw [drop_eq_nil_of_le (by omega), drop_eq_nil_of_le (by omega)]
    · congr 1
      omega
  · simp only [holding]
    omega

theorem head_and_tail_kept_drained :
    Observed 2 [1, 2, 3] ((((new 2).pushChunk [1]).pushBuffer ((new 2).pushChunk [2, 3]).drain.1)) ∧
      (((new 2).pushChunk [1]).pushBuffer ((new 2).pushChunk [2, 3]).drain.1).omittedBytes = 1 :=
  have hobserved : Observed 2 [1, 2, 3] _ :=
    .pushBuffer (.pushChunk .new [1]) (.pushChunk .new [2, 3])
  ⟨hobserved, (head_and_tail_kept hobserved).2.2.2.2⟩

end OmniDoer.UnifiedExec.HeadTailBuffer
