import OmniDoer.Library.Regex
import Mathlib.Tactic.Common

/-! The text of the first match, and what literals and greedy runs match. -/

namespace Re.Pattern

open List

variable {word : Char → Bool}

/-- The text from a place to the end of a later one. -/
def textBetween (p q : Pos) : List Char := p.rest.take (p.rest.length - q.rest.length)

def findFrom (word : Char → Bool) (r : Pattern) (prev : Option Char) :
    List Char → Option (List Char)
  | [] => (r.results word ⟨prev, []⟩).head?.map (textBetween ⟨prev, []⟩)
  | c :: rest =>
    match (r.results word ⟨prev, c :: rest⟩).head? with
    | some q => some (textBetween ⟨prev, c :: rest⟩ q)
    | none => findFrom word r (some c) rest

/-- `pattern.search(text).group(0)`. -/
def find (word : Char → Bool) (r : Pattern) (text : List Char) : Option (List Char) :=
  r.findFrom word none text

theorem textBetween_append (prev : Option Char) (m : List Char) (q : Pos) :
    textBetween ⟨prev, m ++ q.rest⟩ q = m := by
  simp [textBetween]

theorem getLast?_cons_or (c : Char) (text : List Char) (prev : Option Char) :
    (c :: text).getLast?.or prev = text.getLast?.or (some c) := by
  cases text with
  | nil | cons => rfl

theorem findFrom_of_match {r : Pattern} {prev : Option Char} {c : Char} {m : List Char} {q : Pos}
    {more : List Pos} (hresults : r.results word ⟨prev, c :: (m ++ q.rest)⟩ = q :: more) :
    r.findFrom word prev (c :: (m ++ q.rest)) = some (c :: m) := by
  rw [findFrom, hresults]
  exact congrArg some (textBetween_append prev (c :: m) q)

theorem findFrom_append {r : Pattern} {pre : List Char}
    (hpre : ∀ c ∈ pre, ∀ prev rest, r.results word ⟨prev, c :: rest⟩ = []) (prev : Option Char)
    (text : List Char) :
    r.findFrom word prev (pre ++ text) = r.findFrom word (pre.getLast?.or prev) text := by
  induction pre generalizing prev with
  | nil => rfl
  | cons c pre ih =>
    rw [cons_append, findFrom, hpre c mem_cons_self, getLast?_cons_or]
    exact ih (fun d hd => hpre d (mem_cons_of_mem c hd)) (some c)

variable (rest : List Char)

@[simp] theorem results_char_cons (accepts : Char → Bool) (prev : Option Char) (c : Char) :
    (Pattern.char accepts).results word ⟨prev, c :: rest⟩ =
      if accepts c then [⟨some c, rest⟩] else [] := rfl

theorem results_concat_cons (r : Pattern) (rs : List Pattern) (p : Pos) :
    (concat (r :: rs)).results word p = (r.results word p).flatMap ((concat rs).results word) := rfl

theorem results_concat_chars (text : List Char) (prev : Option Char) :
    (concat (text.map fun a => .char (· == a))).results word ⟨prev, text ++ rest⟩ =
      [⟨text.getLast?.or prev, rest⟩] := by
  induction text generalizing prev with
  | nil => rfl
  | cons a text ih =>
    rw [map_cons, results_concat_cons, cons_append, results_char_cons]
    simp [ih, getLast?_cons_or]

theorem results_lit_append (text : String) (prev : Option Char) :
    (lit text).results word ⟨prev, text.toList ++ rest⟩ = [⟨text.toList.getLast?.or prev, rest⟩] :=
  results_concat_chars rest text.toList prev

theorem results_lit_of_not_start (text : String) (p : Pos) (h : ¬ text.toList <+: p.rest) :
    (lit text).results word p = [] := by
  rw [lit]
  obtain ⟨prev, rest⟩ := p
  generalize text.toList = chars at h
  induction chars generalizing prev rest with
  | nil => exact absurd (List.nil_prefix) h
  | cons a chars ih =>
    rw [map_cons, results_concat_cons]
    cases rest with
    | nil => rfl
    | cons c rest =>
      by_cases hc : c = a
      · subst hc
        have hrest : ¬ chars <+: rest := fun hrest => h (by simpa using hrest)
        simpa using ih _ _ hrest
      · simp [hc]

theorem results_opt {r : Pattern} {p : Pos}
    (hshorter : ∀ q ∈ r.results word p, q.rest.length < p.rest.length) :
    (opt r).results word p = r.results word p ++ [p] := by
  have hstop (fuel : ℕ) : repeatResults (r.results word) fuel 0 (some 0) = fun q => [q] := by
    funext q
    cases fuel with
    | zero => rfl
    | succ fuel => simp [repeatResults]
  have hfilter : (r.results word p).filter (fun q => q.rest.length < p.rest.length) =
      r.results word p := by
    simpa using hshorter
  rw [opt, results, repeatResults, hfilter]
  simp [hstop]

section

variable {accepts : Char → Bool} {next : Pos → List Pos}
  (hnext : ∀ prev c rest, accepts c = true → next ⟨prev, c :: rest⟩ = [])
include hnext

variable {run rest : List Char} (hrest : ∀ c ∈ rest.head?, accepts c = false)

include hrest in
theorem flatMap_repeatResults_char (hrun : ∀ c ∈ run, accepts c = true) (fuel lo : ℕ)
    (prev : Option Char) (hfuel : run.length < fuel) :
    (repeatResults ((Pattern.char accepts).results word) fuel lo none
        ⟨prev, run ++ rest⟩).flatMap next =
      if lo ≤ run.length then next ⟨run.getLast?.or prev, rest⟩ else [] := by
  induction run generalizing fuel lo prev with
  | nil =>
    obtain ⟨fuel, rfl⟩ : ∃ n, fuel = n + 1 := ⟨fuel - 1, by omega⟩
    have hbody : (Pattern.char accepts).results word ⟨prev, rest⟩ = [] := by
      cases rest with
      | nil => rfl
      | cons c rest => simp [hrest c rfl]
    by_cases hlo : lo = 0 <;> simp [repeatResults, hbody, hlo]
  | cons c run ih =>
    obtain ⟨fuel, rfl⟩ : ∃ n, fuel = n + 1 := ⟨fuel - 1, by omega⟩
    have hc : accepts c = true := hrun c mem_cons_self
    have htail := ih (fun d hd => hrun d (mem_cons_of_mem c hd)) fuel (lo - 1) (some c)
      (by simpa using hfuel)
    have hstop :
        (if lo = 0 then [(⟨prev, c :: (run ++ rest)⟩ : Pos)] else []).flatMap next = [] := by
      split
      · simp [hnext prev c _ hc]
      · rfl
    rw [cons_append, repeatResults, flatMap_append, hstop]
    simp only [results_char_cons, hc, if_true, filter_cons, length_cons,
      Nat.lt_succ_self, decide_true, filter_nil, flatMap_cons, flatMap_nil,
      append_nil, reduceCtorEq, if_false, Option.map_none, htail, getLast?_cons_or]
    by_cases hlo : lo ≤ run.length + 1
    · rw [if_pos hlo, if_pos (by omega)]
    · rw [if_neg hlo, if_neg (by omega)]

include hrest in
theorem flatMap_results_plus_char (hrun : ∀ c ∈ run, accepts c = true) (prev : Option Char) :
    ((plus (.char accepts)).results word ⟨prev, run ++ rest⟩).flatMap next =
      if run = [] then [] else next ⟨run.getLast?.or prev, rest⟩ := by
  have hfuel : run.length < (run ++ rest).length + 1 := by
    rw [length_append]
    omega
  rw [plus, atLeast, results, flatMap_repeatResults_char hnext hrest hrun _ 1 prev hfuel]
  cases run with
  | nil => rfl
  | cons c run => simp

end

end Re.Pattern
