import OmniDoer.Model.ExecPolicy
import Mathlib.Order.MinMax

/-! # Managed rules over the user's rules

The rules of an overlay are added to those of the policy below. What is found by the first word of
a command comes before what is found by the name of its program, so a rule of the policy below may
keep a rule of the overlay from being looked at. -/

namespace OmniDoer.ExecPolicy

open Rust Unix Tables List

section Evaluations

instance : Std.LawfulOrderMax Decision where
  max_eq_or := max_choice
  max_le_iff _ _ _ := max_le_iff

variable {ms : List RuleMatch} {d : Decision}

theorem fromMatches_le (hne : ms ≠ []) :
    (∃ evaluation, Evaluation.fromMatches ms = some evaluation ∧ d ≤ evaluation.decision) ↔
      ∃ m ∈ ms, d ≤ m.decision := by
  rw [Evaluation.fromMatches]
  cases hmax : (ms.map RuleMatch.decision).max? with
  | none =>
    rw [max?_eq_none_iff, map_eq_nil_iff] at hmax
    exact absurd hmax hne
  | some top =>
    obtain ⟨hmem, hle⟩ := max?_eq_some_iff.1 hmax
    constructor
    · rintro ⟨evaluation, h, hd⟩
      cases h
      obtain ⟨m, hm, rfl⟩ := mem_map.1 hmem
      exact ⟨m, hm, hd⟩
    · rintro ⟨m, hm, hd⟩
      exact ⟨⟨top, ms⟩, rfl, hd.trans (hle _ (mem_map_of_mem hm))⟩

end Evaluations

namespace Policy

variable {env : PathEnv} {B R : Policy} {cmd : List Text}

theorem getVec_mergeOverlay (B R : Policy) (program : Text) :
    (B.mergeOverlay R).getVec program = B.getVec program ++ R.getVec program := by
  rw [getVec, mergeOverlay, filter_append, map_append, getVec, getVec]

theorem matchExactRules_mergeOverlay (B R : Policy) (cmd : List Text) :
    (B.mergeOverlay R).matchExactRules cmd = B.matchExactRules cmd ++ R.matchExactRules cmd := by
  cases cmd with
  | nil => rfl
  | cons first rest => simp [matchExactRules, getVec_mergeOverlay]

theorem mayResolve_mergeOverlay (B R : Policy) (basename : Text) (program : AbsolutePath) :
    (B.mergeOverlay R).mayResolve basename program =
      if (R.hostExecutablesByName.lookup basename).isSome then R.mayResolve basename program
      else B.mayResolve basename program := by
  rw [mayResolve, mergeOverlay, Table.lookup_foldl_insert, mayResolve]
  cases R.hostExecutablesByName.lookup basename <;> rfl

theorem matchHostExecutableRules_eq {program : AbsolutePath} {basename : Text}
    (h : resolveProgram env cmd = some (program, basename)) (P : Policy) :
    P.matchHostExecutableRules env cmd =
      if P.mayResolve basename program then
        ((P.getVec basename).filterMap (·.matches (basename :: cmd.drop 1))).map
          (RuleMatch.withResolvedProgram program)
      else [] := by
  rw [matchHostExecutableRules, h]

theorem matchesForCommandWithOptions_ne_nil (P : Policy) (heuristics : List Text → Decision)
    (options : MatchOptions) :
    P.matchesForCommandWithOptions env cmd (some heuristics) options ≠ [] := by
  unfold matchesForCommandWithOptions
  split
  · exact cons_ne_nil _ _
  · rename_i hmatched
    intro hnil
    exact hmatched _ hnil rfl

theorem matchesForCommandWithOptions_none (P : Policy) (options : MatchOptions) :
    P.matchesForCommandWithOptions env cmd none options = P.matchedRules env cmd options := by
  unfold matchesForCommandWithOptions
  split
  · rename_i h
    cases h
  · rfl

variable {P : Policy}

theorem matchesForCommandWithOptions_of_ne_nil {options : MatchOptions}
    (h : P.matchedRules env cmd options ≠ []) (fallback : Option (List Text → Decision)) :
    P.matchesForCommandWithOptions env cmd fallback options = P.matchedRules env cmd options := by
  unfold matchesForCommandWithOptions
  split
  · rename_i hnil
    exact absurd hnil h
  · rfl

theorem matchesForCommandWithOptions_of_nil {options : MatchOptions}
    (h : P.matchedRules env cmd options = []) (heuristics : List Text → Decision) :
    P.matchesForCommandWithOptions env cmd (some heuristics) options =
      [.heuristicsRuleMatch cmd (heuristics cmd)] := by
  unfold matchesForCommandWithOptions
  rw [h]

theorem matchedRules_of_exact (h : P.matchExactRules cmd ≠ []) (options : MatchOptions) :
    P.matchedRules env cmd options = P.matchExactRules cmd := by
  rw [matchedRules]
  split
  · rename_i hnil
    exact absurd hnil h
  · rfl

theorem matchedRules_of_host (h : P.matchExactRules cmd = []) :
    P.matchedRules env cmd ⟨true⟩ = P.matchHostExecutableRules env cmd := by
  rw [matchedRules, h]
  rfl

/-- Whether the policy below keeps the program of a command from being looked up by its name, and
the overlay says nothing about it. -/
def Excludes (env : PathEnv) (B R : Policy) (cmd : List Text) : Prop :=
  ∃ program basename, resolveProgram env cmd = some (program, basename) ∧
    R.hostExecutablesByName.lookup basename = none ∧ B.mayResolve basename program = false

/-- What the overlay finds by the name of the program is found in the whole as well, unless the
policy below excludes the program. -/
theorem matchHostExecutableRules_mergeOverlay (hR : R.matchHostExecutableRules env cmd ≠ []) :
    (Excludes env B R cmd → (B.mergeOverlay R).matchHostExecutableRules env cmd = []) ∧
      (¬ Excludes env B R cmd →
        ∀ m ∈ R.matchHostExecutableRules env cmd,
          m ∈ (B.mergeOverlay R).matchHostExecutableRules env cmd) := by
  cases hprogram : resolveProgram env cmd with
  | none => simp [matchHostExecutableRules, hprogram] at hR
  | some resolved =>
    obtain ⟨program, basename⟩ := resolved
    rw [matchHostExecutableRules_eq hprogram] at hR ⊢
    rw [matchHostExecutableRules_eq hprogram, mayResolve_mergeOverlay, getVec_mergeOverlay]
    have hexcludes : Excludes env B R cmd ↔
        R.hostExecutablesByName.lookup basename = none ∧ B.mayResolve basename program = false := by
      constructor
      · rintro ⟨program', basename', h, hexcluded⟩
        rw [hprogram] at h
        cases h
        exact hexcluded
      · exact fun h => ⟨program, basename, hprogram, h⟩
    have hmay : R.mayResolve basename program = true := by
      by_contra hmay
      exact hR (if_neg hmay)
    rw [hexcludes, if_pos hmay]
    constructor
    · rintro ⟨hnone, hexcluded⟩
      simp [hnone, hexcluded]
    · intro hnot
      have hwhole : (if (R.hostExecutablesByName.lookup basename).isSome = true then
          R.mayResolve basename program
          else B.mayResolve basename program) = true := by
        split
        · exact hmay
        · rename_i hnone
          rw [Bool.not_eq_true, Option.isSome_eq_false_iff, Option.isNone_iff_eq_none] at hnone
          simpa [hnone] using hnot
      rw [if_pos hwhole, filterMap_append, map_append]
      exact fun m hm => mem_append_right _ hm

/-- Every match of the overlay alone is at most as strict as the decision of the whole, just when
what it finds by the name of the program is neither hidden behind a laxer rule for the first word
nor excluded by the policy below. -/
theorem overlay_at_least_as_strict (env : PathEnv) (B R : Policy) (cmd : List Text)
    (heuristics : List Text → Decision) :
    (∀ m ∈ R.matchesForCommandWithOptions env cmd none ⟨true⟩,
      ∃ evaluation, (B.mergeOverlay R).checkWithOptions env cmd heuristics ⟨true⟩ =
        some evaluation ∧
        m.decision ≤ evaluation.decision) ↔
    (R.matchExactRules cmd = [] → ∀ m ∈ R.matchHostExecutableRules env cmd,
      (B.matchExactRules cmd ≠ [] → ∃ m' ∈ B.matchExactRules cmd, m.decision ≤ m'.decision) ∧
      (B.matchExactRules cmd = [] → Excludes env B R cmd → m.decision ≤ heuristics cmd)) := by
  have hdecides (m : RuleMatch) :
      (∃ evaluation, (B.mergeOverlay R).checkWithOptions env cmd heuristics ⟨true⟩ =
        some evaluation ∧
        m.decision ≤ evaluation.decision) ↔
      ∃ m' ∈ (B.mergeOverlay R).matchesForCommandWithOptions env cmd (some heuristics) ⟨true⟩,
        m.decision ≤ m'.decision :=
    fromMatches_le (matchesForCommandWithOptions_ne_nil _ _ _)
  simp only [hdecides, matchesForCommandWithOptions_none]
  by_cases hR : R.matchExactRules cmd = []
  · rw [matchedRules_of_host hR]
    simp only [hR, forall_const]
    refine forall₂_congr fun m hm => ?_
    have hexact : (B.mergeOverlay R).matchExactRules cmd = B.matchExactRules cmd := by
      rw [matchExactRules_mergeOverlay, hR, append_nil]
    by_cases hB : B.matchExactRules cmd = []
    · -- the name of the program is looked up in both
      obtain ⟨hexcluded, hkept⟩ :=
        matchHostExecutableRules_mergeOverlay (B := B) (ne_nil_of_mem hm)
      have hwhole : (B.mergeOverlay R).matchedRules env cmd ⟨true⟩ =
          (B.mergeOverlay R).matchHostExecutableRules env cmd :=
            matchedRules_of_host (hexact.trans hB)
      by_cases hexcludes : Excludes env B R cmd
      · rw [matchesForCommandWithOptions_of_nil (hwhole.trans (hexcluded hexcludes))]
        simp [hB, hexcludes, RuleMatch.decision]
      · have hmem := hkept hexcludes m hm
        rw [← hwhole] at hmem
        rw [matchesForCommandWithOptions_of_ne_nil (ne_nil_of_mem hmem)]
        exact iff_of_true ⟨m, hmem, le_rfl⟩ ⟨fun h => absurd hB h, fun _ h => absurd h hexcludes⟩
    · -- the first word is found below
      have hne : (B.mergeOverlay R).matchExactRules cmd ≠ [] := hexact.symm ▸ hB
      have hwhole : (B.mergeOverlay R).matchedRules env cmd ⟨true⟩ = B.matchExactRules cmd :=
        (matchedRules_of_exact hne _).trans hexact
      rw [matchesForCommandWithOptions_of_ne_nil (hwhole.symm ▸ hB), hwhole]
      simp [hB]
  · -- what the overlay finds by the first word is found in the whole
    refine iff_of_true (fun m hm => ⟨m, ?_, le_rfl⟩) fun h => absurd h hR
    have hmem : m ∈ (B.mergeOverlay R).matchExactRules cmd := by
      rw [matchedRules_of_exact hR] at hm
      rw [matchExactRules_mergeOverlay]
      exact mem_append_right _ hm
    have hwhole : (B.mergeOverlay R).matchedRules env cmd ⟨true⟩ =
        (B.mergeOverlay R).matchExactRules cmd :=
      matchedRules_of_exact (ne_nil_of_mem hmem) _
    rw [matchesForCommandWithOptions_of_ne_nil (hwhole.symm ▸ ne_nil_of_mem hmem), hwhole]
    exact hmem

/-- A managed rule forbids `git push` by name; a rule of the user for `/usr/bin/git` allows it. -/
theorem exact_rule_hides_managed :
    let B : Policy :=
      ⟨[("/usr/bin/git".toList, ⟨⟨"/usr/bin/git".toList, []⟩, .allow, none⟩)], [], .empty⟩
    let R : Policy :=
      ⟨[("git".toList, ⟨⟨"git".toList, [.single "push".toList]⟩, .forbidden, none⟩)], [], .empty⟩
    let cmd := ["/usr/bin/git".toList, "push".toList]
    (R.matchesForCommandWithOptions ⟨none, none⟩ cmd none ⟨true⟩).map RuleMatch.decision =
      [.forbidden] ∧
    ((B.mergeOverlay R).checkWithOptions ⟨none, none⟩ cmd (fun _ => .forbidden) ⟨true⟩).map
      Evaluation.decision = some .allow := by
  decide +kernel

end Policy

end OmniDoer.ExecPolicy
