import OmniDoer.Library.Regex
import Mathlib.Data.List.Basic

/-! Texts that a pattern leaves alone: those over an alphabet that some obligatory part
of the pattern rejects, and single words that are too long to fit between two word
boundaries. -/

namespace Re.Pattern

open List

variable {word : Char → Bool}

/-- A bound below the length of every match. -/
def shortest : Pattern → ℕ
  | .eps | .boundary => 0
  | .char _ => 1
  | .seq r s => r.shortest + s.shortest
  | .alt r s => min r.shortest s.shortest
  | .rep r lo _ => lo * r.shortest

/-- A bound above the length of every match. -/
def longest : Pattern → Option ℕ
  | .eps | .boundary => some 0
  | .char _ => some 1
  | .seq r s => do some ((← r.longest) + (← s.longest))
  | .alt r s => do some (max (← r.longest) (← s.longest))
  | .rep r _ hi => do some ((← hi) * (← r.longest))

/-- `q` lies the text `m` behind `p`. -/
def Follows (m : List Char) (p q : Pos) : Prop :=
  p.rest = m ++ q.rest ∧ q.prev = m.getLast?.or p.prev

theorem Follows.trans {m n : List Char} {p q u : Pos} (h : Follows m p q) (h' : Follows n q u) :
    Follows (m ++ n) p u := by
  refine ⟨by rw [h.1, h'.1, append_assoc], ?_⟩
  rw [h'.2, h.2, getLast?_append, Option.or_assoc]

/-- The length of a match lies between two bounds. -/
def Between (lo : ℕ) (hi : Option ℕ) (p q : Pos) : Prop :=
  ∃ m, Follows m p q ∧ lo ≤ m.length ∧ ∀ n ∈ hi, m.length ≤ n

theorem between_refl (p : Pos) (hi : Option ℕ) : Between 0 hi p p :=
  ⟨[], ⟨rfl, rfl⟩, Nat.le_refl 0, fun _ _ => Nat.zero_le _⟩

theorem Between.mono {lo lo' : ℕ} {hi hi' : Option ℕ} {p q : Pos} (h : Between lo hi p q)
    (hlo : lo' ≤ lo) (hhi : ∀ n ∈ hi', ∃ k ∈ hi, k ≤ n) : Between lo' hi' p q := by
  obtain ⟨m, hm, hmin, hmax⟩ := h
  refine ⟨m, hm, Nat.le_trans hlo hmin, fun n hn => ?_⟩
  obtain ⟨k, hk, hkn⟩ := hhi n hn
  exact Nat.le_trans (hmax k hk) hkn

theorem between_of_mem_repeatResults {body : Pos → List Pos} {lo : ℕ} {hi : Option ℕ}
    (hbody : ∀ p q, q ∈ body p → Between lo hi p q) (fuel atLeast : ℕ) (atMost : Option ℕ)
    (p q : Pos) (h : q ∈ repeatResults body fuel atLeast atMost p) :
    Between (atLeast * lo) (do some ((← atMost) * (← hi))) p q := by
  induction fuel generalizing atLeast atMost p with
  | zero =>
    simp only [repeatResults, mem_ite_nil_right, mem_singleton] at h
    rw [h.1, h.2, Nat.zero_mul]
    exact between_refl p _
  | succ fuel ih =>
    simp only [repeatResults, mem_append, mem_ite_nil_left, mem_flatMap,
      mem_filter, mem_ite_nil_right, mem_singleton] at h
    rcases h with ⟨hne, u, ⟨hu, -⟩, hq⟩ | ⟨rfl, rfl⟩
    · obtain ⟨m, hm, hlo, hhi⟩ := hbody p u hu
      obtain ⟨n, hn, hlo', hhi'⟩ := ih _ _ u hq
      refine ⟨m ++ n, hm.trans hn, ?_, ?_⟩
      · rw [length_append]
        cases atLeast with
        | zero => omega
        | succ k =>
          rw [Nat.add_sub_cancel] at hlo'
          rw [Nat.succ_mul]
          omega
      · intro bound hbound
        cases atMost with
        | none => simp at hbound
        | some k =>
          cases hi with
          | none => simp at hbound
          | some j =>
            obtain ⟨k, rfl⟩ : ∃ k', k = k' + 1 :=
              Nat.exists_eq_succ_of_ne_zero fun h0 => hne (by rw [h0])
            have hn' : n.length ≤ k * j := hhi' (k * j) (by simp)
            have hm' : m.length ≤ j := hhi j rfl
            have hbound' : bound = (k + 1) * j := by simpa using hbound.symm
            rw [length_append, hbound', Nat.succ_mul]
            omega
    · rw [Nat.zero_mul]
      exact between_refl q _

theorem between_of_mem_results (r : Pattern) (p q : Pos) (h : q ∈ r.results word p) :
    Between r.shortest r.longest p q := by
  induction r generalizing p q with
  | eps =>
    rw [results, mem_singleton] at h
    exact h ▸ between_refl q _
  | boundary =>
    simp only [results, mem_ite_nil_right, mem_singleton] at h
    exact h.2 ▸ between_refl q _
  | char accepts =>
    unfold results at h
    split at h
    · rename_i c rest hrest
      simp only [mem_ite_nil_right, mem_singleton] at h
      obtain ⟨-, rfl⟩ := h
      exact ⟨[c], ⟨hrest, rfl⟩, Nat.le_refl 1, by simp [longest]⟩
    · simp at h
  | seq r s ihr ihs =>
    simp only [results, mem_flatMap] at h
    obtain ⟨u, hu, hq⟩ := h
    obtain ⟨m, hm, hlo, hhi⟩ := ihr p u hu
    obtain ⟨n, hn, hlo', hhi'⟩ := ihs u q hq
    refine ⟨m ++ n, hm.trans hn, ?_, ?_⟩
    · rw [length_append, shortest]
      omega
    · intro bound hbound
      simp only [longest, Option.bind_eq_bind, Option.mem_def, Option.bind_eq_some_iff,
        Option.some.injEq] at hbound
      obtain ⟨a, ha, b, hb, rfl⟩ := hbound
      have := hhi a ha
      have := hhi' b hb
      rw [length_append]
      omega
  | alt r s ihr ihs =>
    simp only [results, mem_append] at h
    have hmax : ∀ n ∈ (Pattern.alt r s).longest,
        (∃ a ∈ r.longest, a ≤ n) ∧ ∃ b ∈ s.longest, b ≤ n := by
      intro n hn
      simp only [longest, Option.bind_eq_bind, Option.mem_def, Option.bind_eq_some_iff,
        Option.some.injEq] at hn
      obtain ⟨a, ha, b, hb, rfl⟩ := hn
      exact ⟨⟨a, ha, Nat.le_max_left a b⟩, ⟨b, hb, Nat.le_max_right a b⟩⟩
    rcases h with h | h
    · exact (ihr p q h).mono (Nat.min_le_left _ _) fun n hn => (hmax n hn).1
    · exact (ihs p q h).mono (Nat.min_le_right _ _) fun n hn => (hmax n hn).2
  | rep r lo hi ih => exact between_of_mem_repeatResults ih _ lo hi p q h

theorem mem_of_mem_results {r : Pattern} {p q : Pos} (h : q ∈ r.results word p) {c : Char}
    (hc : c ∈ q.rest) : c ∈ p.rest := by
  obtain ⟨m, ⟨hm, -⟩, -⟩ := between_of_mem_results r p q h
  rw [hm]
  exact mem_append_right m hc

/-- Some obligatory character class accepts nothing of the alphabet. -/
def misses (alphabet : List Char) : Pattern → Bool
  | .eps | .boundary => false
  | .char accepts => alphabet.all fun c => !accepts c
  | .seq r s => r.misses alphabet || s.misses alphabet
  | .alt r s => r.misses alphabet && s.misses alphabet
  | .rep r lo _ => 0 < lo && r.misses alphabet

variable {r : Pattern}

variable {alphabet : List Char}

theorem results_eq_nil_of_misses (h : r.misses alphabet = true)
    {p : Pos} (hp : ∀ c ∈ p.rest, c ∈ alphabet) : r.results word p = [] := by
  induction r generalizing p with
  | eps | boundary => cases h
  | char accepts =>
    rw [misses, all_eq_true] at h
    unfold results
    split
    · rename_i c rest hrest
      have hc := h c (hp c (by rw [hrest]; exact mem_cons_self))
      simpa using hc
    · rfl
  | seq r s ihr ihs =>
    rw [misses, Bool.or_eq_true] at h
    rw [results, flatMap_eq_nil_iff]
    intro q hq
    rcases h with h | h
    · rw [ihr h hp] at hq
      cases hq
    · exact ihs h fun c hc => hp c (mem_of_mem_results hq hc)
  | alt r s ihr ihs =>
    rw [misses, Bool.and_eq_true] at h
    rw [results, ihr h.1 hp, ihs h.2 hp, append_nil]
  | rep r lo hi ih =>
    rw [misses, Bool.and_eq_true, decide_eq_true_eq] at h
    have hbody : r.results word p = [] := ih h.2 hp
    simp [results, repeatResults, hbody, Nat.pos_iff_ne_zero.1 h.1]

variable {text : List Char}

theorem search_eq_false_of_misses
    (h : r.misses alphabet = true) (htext : ∀ c ∈ text, c ∈ alphabet) :
    r.search word text = false := by
  have hfrom : ∀ prev, r.searchFrom word prev text = false := by
    induction text with
    | nil =>
      intro prev
      simp [searchFrom, results_eq_nil_of_misses h (p := ⟨prev, []⟩) htext]
    | cons c rest ih =>
      intro prev
      have hrest := ih (fun d hd => htext d (mem_cons_of_mem c hd)) (some c)
      simp [searchFrom, results_eq_nil_of_misses h (p := ⟨prev, c :: rest⟩) htext, hrest]
  exact hfrom none

def Inside (text : List Char) (p : Pos) : Prop :=
  ∃ before, text = before ++ p.rest ∧ p.prev = before.getLast?

theorem inside_start (text : List Char) : Inside text ⟨none, text⟩ := ⟨[], rfl, rfl⟩

theorem Inside.next {p : Pos} {c : Char} {rest : List Char} (h : Inside text p)
    (hp : p.rest = c :: rest) : Inside text ⟨some c, rest⟩ := by
  obtain ⟨before, htext, -⟩ := h
  exact ⟨before ++ [c], by rw [htext, hp, append_assoc, singleton_append], by simp⟩

theorem sub_eq_self
    (h : ∀ p, Inside text p → r.results word p = []) (repl : List Char) :
    r.sub word repl text = text := by
  have hfrom : ∀ fuel p, Inside text p → subFrom word r repl fuel p = p.rest := by
    intro fuel
    induction fuel with
    | zero =>
      intro p _
      rfl
    | succ fuel ih =>
      intro p hp
      rw [subFrom, h p hp]
      cases hrest : p.rest with
      | nil => rfl
      | cons c rest => exact congrArg (c :: ·) (ih _ (hp.next hrest))
  exact hfrom _ _ (inside_start text)

theorem sub_eq_self_of_misses
    (h : r.misses alphabet = true) (htext : ∀ c ∈ text, c ∈ alphabet)
    (repl : List Char) : r.sub word repl text = text := by
  apply sub_eq_self
  rintro p ⟨before, rfl, -⟩
  exact results_eq_nil_of_misses h fun c hc => htext c (mem_append_right before hc)

theorem atBoundary_of_word (htext : ∀ c ∈ text, word c = true) {p : Pos}
    (hp : Inside text p) (h : atBoundary word p = true) : p.prev = none ∨ p.rest = [] := by
  obtain ⟨before, rfl, hprev⟩ := hp
  cases hrest : p.rest with
  | nil => exact .inr rfl
  | cons c rest =>
    left
    have hc : word c = true := htext c (by rw [hrest]; simp)
    cases hlast : before.getLast? with
    | none => rw [hprev, hlast]
    | some d =>
      have hd : word d = true := htext d (mem_append_left _ (mem_of_getLast? hlast))
      simp [atBoundary, hprev, hlast, hrest, hc, hd] at h

theorem sub_eq_self_of_longest {r s : Pattern} {n : ℕ} (hmin : 0 < r.shortest)
    (hmax : r.longest = some n) (htext : ∀ c ∈ text, word c = true)
    (hn : n < text.length) (repl : List Char) :
    (Pattern.seq .boundary (.seq r (.seq .boundary s))).sub word repl text = text := by
  apply sub_eq_self
  intro p hp
  rw [eq_nil_iff_forall_not_mem]
  intro q hq
  simp only [results, mem_flatMap, mem_ite_nil_right, mem_singleton] at hq
  obtain ⟨u, ⟨hstart, rfl⟩, v, hv, w, ⟨hend, rfl⟩, -⟩ := hq
  obtain ⟨m, ⟨hm, hprev⟩, hlo, hhi⟩ := between_of_mem_results r u w hv
  have hm' : m.length ≤ n := hhi n hmax
  have hmne : m ≠ [] := by
    rintro rfl
    simp at hlo
    omega
  rcases atBoundary_of_word htext hp hstart with hu | hu
  · -- the match starts with the word and ends inside it
    obtain ⟨before, hbefore, hlast⟩ := hp
    have hnil : before = [] := by
      rw [hu] at hlast
      exact getLast?_eq_none_iff.1 hlast.symm
    rw [hnil, nil_append, hm] at hbefore
    have hw : Inside text w := ⟨m, hbefore, by rw [hprev, getLast?_eq_some_getLast hmne]; rfl⟩
    rcases atBoundary_of_word htext hw hend with hw | hw
    · rw [hprev, getLast?_eq_some_getLast hmne] at hw
      cases hw
    · rw [hbefore, hw, append_nil] at hn
      omega
  · rw [hu] at hm
    exact hmne (append_eq_nil_iff.1 hm.symm).1

end Re.Pattern
