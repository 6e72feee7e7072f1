import OmniDoer.Model.ExecPolicyManager
import OmniDoer.Verification.ExecPolicy.Overlay

/-! # Amendments in memory and in the files

An amendment adds one rule that allows a prefix. In memory it is left out when the command is
allowed already; in the files it is not. Whether that makes a difference depends on what the rule
hides: a rule for the first word of a command comes before the rules for the name of its program. -/

namespace OmniDoer.ExecPolicy

open Rust Unix Tables List Function

section Decisions

variable {ms ms' : List RuleMatch}

def top (ms : List RuleMatch) : Option Decision := (ms.map RuleMatch.decision).max?

theorem top_congr (h : ∀ m, m ∈ ms ↔ m ∈ ms') : top ms = top ms' := by
  ext d
  simp only [top, max?_eq_some_iff, mem_map, h]

theorem top_append_allow {extra : List RuleMatch} (hne : ms ≠ [])
    (hextra : ∀ m ∈ extra, m.decision = .allow) : top (ms ++ extra) = top ms := by
  obtain ⟨d, hd⟩ : ∃ d, top ms = some d := by
    rw [← Option.isSome_iff_exists, top]
    simpa using hne
  obtain ⟨hmem, hle⟩ := max?_eq_some_iff.1 hd
  rw [hd, top, map_append]
  refine max?_eq_some_iff.2 ⟨mem_append_left _ hmem, fun d' hd' => ?_⟩
  rcases mem_append.1 hd' with hd' | hd'
  · exact hle d' hd'
  · obtain ⟨m, hm, rfl⟩ := mem_map.1 hd'
    exact hextra m hm ▸ Decision.allow_le _

theorem top_eq_allow : top ms = some .allow ↔ ms ≠ [] ∧ ∀ m ∈ ms, m.decision = .allow := by
  rw [top, max?_eq_some_iff, mem_map]
  constructor
  · rintro ⟨⟨m₀, hm₀, -⟩, hle⟩
    exact ⟨ne_nil_of_mem hm₀, fun m hm => Decision.le_allow.1 (hle _ (mem_map_of_mem hm))⟩
  · rintro ⟨hne, hall⟩
    obtain ⟨m, hm⟩ := exists_mem_of_ne_nil _ hne
    refine ⟨⟨m, hm, hall m hm⟩, fun d hd => ?_⟩
    obtain ⟨m', hm', rfl⟩ := mem_map.1 hd
    rw [hall m' hm']

end Decisions

namespace Policy

variable {env : PathEnv} {P Q : Policy} {cmd : List Text} {heuristics : List Text → Decision}

def decides (env : PathEnv) (P : Policy) (cmd : List Text) (heuristics : List Text → Decision) :
    Option Decision :=
  (P.checkWithOptions env cmd heuristics ⟨true⟩).map Evaluation.decision

theorem decides_eq_top (P : Policy) :
    P.decides env cmd heuristics =
      top (P.matchesForCommandWithOptions env cmd (some heuristics) ⟨true⟩) := by
  rw [decides, checkWithOptions, Evaluation.fromMatches, Option.map_map]
  exact Option.map_id'

theorem decides_of_exact (h : P.matchExactRules cmd ≠ []) :
    P.decides env cmd heuristics = top (P.matchExactRules cmd) := by
  have hmatched : P.matchedRules env cmd ⟨true⟩ = P.matchExactRules cmd := matchedRules_of_exact h _
  rw [decides_eq_top, matchesForCommandWithOptions_of_ne_nil (hmatched.symm ▸ h), hmatched]

theorem decides_of_host (h : P.matchExactRules cmd = [])
    (hhost : P.matchHostExecutableRules env cmd ≠ []) :
    P.decides env cmd heuristics = top (P.matchHostExecutableRules env cmd) := by
  have hmatched : P.matchedRules env cmd ⟨true⟩ = P.matchHostExecutableRules env cmd :=
    matchedRules_of_host h
  rw [decides_eq_top, matchesForCommandWithOptions_of_ne_nil (hmatched.symm ▸ hhost), hmatched]

theorem decides_of_unmatched (h : P.matchExactRules cmd = [])
    (hhost : P.matchHostExecutableRules env cmd = []) :
    P.decides env cmd heuristics = some (heuristics cmd) := by
  have hmatched : P.matchedRules env cmd ⟨true⟩ = [] := (matchedRules_of_host h).trans hhost
  rw [decides_eq_top, matchesForCommandWithOptions_of_nil hmatched]
  rfl

/-- The rules of one policy are those of the other, and names lead to programs alike. -/
structure SameRules (P Q : Policy) : Prop where
  rules : ∀ program rule, rule ∈ P.getVec program ↔ rule ∈ Q.getVec program
  mayResolve : ∀ basename program, P.mayResolve basename program = Q.mayResolve basename program

theorem SameRules.mem_exact (h : SameRules P Q) (m : RuleMatch) :
    m ∈ P.matchExactRules cmd ↔ m ∈ Q.matchExactRules cmd := by
  cases cmd with
  | nil => rfl
  | cons first rest => simp only [matchExactRules, mem_filterMap, h.rules]

theorem SameRules.mem_host (h : SameRules P Q) (m : RuleMatch) :
    m ∈ P.matchHostExecutableRules env cmd ↔ m ∈ Q.matchHostExecutableRules env cmd := by
  cases hprogram : resolveProgram env cmd with
  | none => simp [matchHostExecutableRules, hprogram]
  | some resolved =>
    rw [matchHostExecutableRules_eq hprogram, matchHostExecutableRules_eq hprogram, h.mayResolve]
    split
    · simp only [mem_map, mem_filterMap, h.rules]
    · rfl

theorem nil_congr {ms ms' : List RuleMatch} (h : ∀ m, m ∈ ms ↔ m ∈ ms') : ms = [] ↔ ms' = [] := by
  simp only [eq_nil_iff_forall_not_mem, h]

theorem SameRules.decides_eq (h : SameRules P Q) :
    P.decides env cmd heuristics = Q.decides env cmd heuristics := by
  by_cases hexact : P.matchExactRules cmd = []
  · have hexact' : Q.matchExactRules cmd = [] := (nil_congr h.mem_exact).1 hexact
    by_cases hhost : P.matchHostExecutableRules env cmd = []
    · rw [decides_of_unmatched hexact hhost,
        decides_of_unmatched hexact' ((nil_congr h.mem_host).1 hhost)]
    · have hhost' := mt (nil_congr h.mem_host).2 hhost
      rw [decides_of_host hexact hhost, decides_of_host hexact' hhost', top_congr h.mem_host]
  · have hexact' := mt (nil_congr h.mem_exact).2 hexact
    rw [decides_of_exact hexact, decides_of_exact hexact', top_congr h.mem_exact]

def allowRule (first : Text) (rest : List Text) : PrefixRule :=
  ⟨⟨first, rest.map .single⟩, .allow, none⟩

def withRule (P : Policy) (first : Text) (rest : List Text) : Policy :=
  { P with rulesByProgram := P.rulesByProgram ++ [(first, allowRule first rest)] }

section Rule

variable {first : Text} {rest : List Text}

theorem addPrefixRule_cons (P : Policy) (first : Text) (rest : List Text) :
    P.addPrefixRule (first :: rest) .allow = some (P.withRule first rest) := rfl

theorem allowRule_decision {m : RuleMatch} (h : (allowRule first rest).matches cmd = some m) :
    m.decision = .allow := by
  obtain ⟨_, -, rfl⟩ := Option.map_eq_some_iff.1 h
  rfl

theorem isSome_matchesPrefix (pattern : PrefixPattern) :
    (pattern.matchesPrefix cmd).isSome = true ↔
      pattern.rest.length + 1 ≤ cmd.length ∧ cmd.head? = some pattern.first ∧
        ((pattern.rest.zip (cmd.drop 1)).all fun (token, word) => token.matches word) = true := by
  rw [PrefixPattern.matchesPrefix]
  split
  · rename_i h
    refine iff_of_false (by simp) fun hall => ?_
    rcases h with h | h
    · exact absurd hall.1 (by omega)
    · exact h hall.2.1
  · rename_i h
    rw [not_or, Nat.not_lt, not_not] at h
    split
    · rename_i hall
      exact iff_of_true rfl ⟨h.1, h.2, hall⟩
    · rename_i hall
      exact iff_of_false (by simp) fun h => hall h.2.2

theorem zip_all_single (rest tail : List Text) (h : rest.length ≤ tail.length) :
    (((rest.map PatternToken.single).zip tail).all fun (token, word) => token.matches word) = true ↔
      rest <+: tail := by
  induction rest generalizing tail with
  | nil => simp
  | cons word rest ih =>
    cases tail with
    | nil => simp at h
    | cons word' tail =>
      rw [map_cons, zip_cons_cons, all_cons, Bool.and_eq_true, ih tail (by simpa using h),
        cons_prefix_cons]
      exact and_congr_left' decide_eq_true_iff

theorem isSome_allowRule_matches :
    ((allowRule first rest).matches cmd).isSome = true ↔ first :: rest <+: cmd := by
  rw [PrefixRule.matches, Option.isSome_map, isSome_matchesPrefix]
  change (rest.map PatternToken.single).length + 1 ≤ _ ∧ _ = some first ∧
    (((rest.map PatternToken.single).zip _).all _) = true ↔ _
  rw [length_map]
  cases cmd with
  | nil => simp
  | cons first' tail =>
    rw [cons_prefix_cons, length_cons, Nat.add_le_add_iff_right, head?_cons, Option.some.injEq,
      @eq_comm _ first']
    constructor
    · rintro ⟨hlength, hfirst, hall⟩
      exact ⟨hfirst, (zip_all_single rest tail hlength).1 hall⟩
    · rintro ⟨hfirst, hstarts⟩
      exact ⟨hstarts.length_le, hfirst, (zip_all_single rest tail hstarts.length_le).2 hstarts⟩

theorem allowRule_matches_eq_none (h : ¬ first :: rest <+: cmd) :
    (allowRule first rest).matches cmd = none := by
  rw [← Option.not_isSome_iff_eq_none, isSome_allowRule_matches]
  exact h

theorem getVec_withRule (program : Text) :
    (P.withRule first rest).getVec program =
      P.getVec program ++ if first = program then [allowRule first rest] else [] := by
  rw [getVec, withRule, getVec]
  by_cases h : first = program <;> simp [h]

theorem mayResolve_withRule (basename : Text) (program : AbsolutePath) :
    (P.withRule first rest).mayResolve basename program = P.mayResolve basename program := rfl

theorem matchExactRules_withRule (cmd : List Text) :
    (P.withRule first rest).matchExactRules cmd =
      P.matchExactRules cmd ++ ((allowRule first rest).matches cmd).toList := by
  cases cmd with
  | nil => rfl
  | cons first' tail =>
    rw [matchExactRules, getVec_withRule, filterMap_append]
    split
    · rw [filterMap_cons]
      cases (allowRule first rest).matches (first' :: tail) <;> rfl
    · rename_i hfirst
      rw [allowRule_matches_eq_none fun h => hfirst (cons_prefix_cons.1 h).1]
      rfl

/-- Whether a rule for a prefix is found by the name of the program. -/
def FoundByName (env : PathEnv) (P : Policy) (command cmd : List Text) : Prop :=
  ∃ program name, resolveProgram env cmd = some (program, name) ∧ P.mayResolve name program = true ∧
    command <+: name :: cmd.drop 1

theorem matchHostExecutableRules_withRule (env : PathEnv) (P : Policy) (first : Text)
    (rest cmd : List Text) :
    ∃ extra, (P.withRule first rest).matchHostExecutableRules env cmd =
        P.matchHostExecutableRules env cmd ++ extra ∧
      (∀ m ∈ extra, m.decision = .allow) ∧
        (extra ≠ [] ↔ FoundByName env P (first :: rest) cmd) := by
  cases hprogram : resolveProgram env cmd with
  | none =>
    refine ⟨[], by simp [matchHostExecutableRules, hprogram], by simp,
      by simp [FoundByName, hprogram]⟩
  | some resolved =>
    obtain ⟨program, name⟩ := resolved
    have hfound : FoundByName env P (first :: rest) cmd ↔
        P.mayResolve name program = true ∧ first :: rest <+: name :: cmd.drop 1 := by
      constructor
      · rintro ⟨program', name', h, hname⟩
        rw [hprogram] at h
        cases h
        exact hname
      · exact fun hname => ⟨program, name, hprogram, hname⟩
    rw [matchHostExecutableRules_eq hprogram, matchHostExecutableRules_eq hprogram, hfound,
      mayResolve_withRule, getVec_withRule]
    by_cases hmay : P.mayResolve name program = true
    · rw [if_pos hmay, if_pos hmay, filterMap_append, map_append]
      by_cases hfirst : first = name
      · rw [if_pos hfirst, ← isSome_allowRule_matches]
        refine ⟨_, rfl, ?_, ?_⟩
        · intro m hm
          obtain ⟨m', hm', rfl⟩ := mem_map.1 hm
          obtain ⟨rule, hrule, hmatch⟩ := mem_filterMap.1 hm'
          rw [mem_singleton.1 hrule] at hmatch
          have hallow := allowRule_decision hmatch
          cases m' <;> exact hallow
        · rw [filterMap_cons]
          cases hmatch : (allowRule first rest).matches (name :: cmd.drop 1) with
          | none => simp
          | some m => simp [hmay]
      · rw [if_neg hfirst]
        exact ⟨[], by simp, by simp, by simp [hfirst]⟩
    · rw [if_neg hmay, if_neg hmay]
      exact ⟨[], by simp, by simp, by simp [hmay]⟩

/-- Whether a rule for a prefix makes no difference: a command it matches is matched already, by a
rule for its first word or by rules for the name of its program that all allow it. -/
def Redundant (env : PathEnv) (P : Policy) (command : List Text) : Prop :=
  ∀ cmd, P.matchExactRules cmd = [] →
    (command <+: cmd → P.matchHostExecutableRules env cmd ≠ [] ∧
      ∀ m ∈ P.matchHostExecutableRules env cmd, m.decision = .allow) ∧
    (¬ command <+: cmd → FoundByName env P command cmd → P.matchHostExecutableRules env cmd ≠ [])

theorem decides_withRule_iff (env : PathEnv) (P : Policy) (first : Text) (rest cmd : List Text) :
    (∀ heuristics, (P.withRule first rest).decides env cmd heuristics =
      P.decides env cmd heuristics) ↔
      (P.matchExactRules cmd = [] →
        (first :: rest <+: cmd → P.matchHostExecutableRules env cmd ≠ [] ∧
          ∀ m ∈ P.matchHostExecutableRules env cmd, m.decision = .allow) ∧
        (¬ first :: rest <+: cmd → FoundByName env P (first :: rest) cmd →
          P.matchHostExecutableRules env cmd ≠ [])) := by
  have hmatches : ∀ m ∈ ((allowRule first rest).matches cmd).toList, m.decision = .allow := by
    intro m hm
    exact allowRule_decision (Option.mem_toList.1 hm)
  by_cases hexact : P.matchExactRules cmd = []
  · simp only [hexact]
    by_cases hstarts : first :: rest <+: cmd
    · -- the rule comes first
      obtain ⟨m, hm⟩ := Option.isSome_iff_exists.1 (isSome_allowRule_matches.2 hstarts)
      have hexact' : (P.withRule first rest).matchExactRules cmd = [m] := by
        rw [matchExactRules_withRule, hexact, hm]
        rfl
      have hallow : top [m] = some .allow := by
        refine top_eq_allow.2 ⟨cons_ne_nil _ _, ?_⟩
        simpa using allowRule_decision hm
      have hdecides (heuristics : List Text → Decision) :
          (P.withRule first rest).decides env cmd heuristics = some .allow := by
        rw [decides_of_exact (hexact'.symm ▸ cons_ne_nil _ _), hexact', hallow]
      simp only [hdecides, hstarts, forall_const, not_true_eq_false, false_imp_iff, and_true]
      by_cases hhost : P.matchHostExecutableRules env cmd = []
      · simp only [decides_of_unmatched hexact hhost, hhost, ne_eq, not_true_eq_false,
          false_and, iff_false]
        intro h
        cases h fun _ => .forbidden
      · simp only [decides_of_host hexact hhost]
        rw [← top_eq_allow]
        exact ⟨fun h => (h fun _ => .allow).symm, fun h _ => h.symm⟩
    · -- the rule is looked up by name at most
      have hexact' : (P.withRule first rest).matchExactRules cmd = [] := by
        rw [matchExactRules_withRule, hexact, allowRule_matches_eq_none hstarts]
        rfl
      obtain ⟨extra, hextra, hallow, hfound⟩ :=
        matchHostExecutableRules_withRule env P first rest cmd
      simp only [hstarts, false_imp_iff, not_false_eq_true, forall_const, true_and]
      by_cases hhost : P.matchHostExecutableRules env cmd = []
      · rw [hhost] at hextra
        simp only [decides_of_unmatched hexact hhost, hhost, ne_eq, not_true_eq_false]
        by_cases hnil : extra = []
        · rw [hnil] at hextra
          simp only [decides_of_unmatched hexact' hextra]
          exact iff_of_true (fun _ => trivial) fun h => hfound.2 h hnil
        · have hdecides (heuristics : List Text → Decision) :
              (P.withRule first rest).decides env cmd heuristics = some .allow := by
            rw [decides_of_host hexact' (hextra.symm ▸ hnil), hextra, top_eq_allow]
            exact ⟨hnil, hallow⟩
          simp only [hdecides]
          refine iff_of_false (fun h => ?_) fun h => h (hfound.1 hnil)
          cases h fun _ => .forbidden
      · have hhost' : (P.withRule first rest).matchHostExecutableRules env cmd ≠ [] := by
          simp [hextra, hhost]
        refine iff_of_true (fun heuristics => ?_) fun _ => hhost
        rw [decides_of_host hexact hhost, decides_of_host hexact' hhost', hextra,
          top_append_allow hhost hallow]
  · -- the rule only adds a permission
    refine iff_of_true (fun heuristics => ?_) fun h => absurd h hexact
    have hexact' : (P.withRule first rest).matchExactRules cmd ≠ [] := by
      rw [matchExactRules_withRule]
      simp [hexact]
    rw [decides_of_exact hexact, decides_of_exact hexact', matchExactRules_withRule,
      top_append_allow hexact hmatches]

end Rule

end Policy

section Files

variable {env : PathEnv} {evaluate : Text → Option (List RuleCall)} {b b' c : PolicyBuilder}

def rulesOf : RuleCall → List (Text × PrefixRule)
  | .prefixRule pattern decision justification _ _ =>
    byProgram (prefixRules pattern decision justification)
  | _ => []

def examplesOf : RuleCall → List PendingExampleValidation
  | .prefixRule pattern decision justification matching notMatching =>
    [⟨prefixRules pattern decision justification, matching, notMatching⟩]
  | _ => []

def executablesAfter (executables : HostExecutables) : RuleCall → HostExecutables
  | .hostExecutable name paths => executables.insert (name, paths)
  | _ => executables

theorem call_fields (b : PolicyBuilder) (call : RuleCall) :
    (b.call call).rulesByProgram = b.rulesByProgram ++ rulesOf call ∧
      (b.call call).pendingExampleValidations = b.pendingExampleValidations ++ examplesOf call ∧
      (b.call call).hostExecutablesByName = executablesAfter b.hostExecutablesByName call := by
  cases call <;> simp [PolicyBuilder.call, rulesOf, examplesOf, executablesAfter]

theorem calls_fields (calls : List RuleCall) (b : PolicyBuilder) :
    (calls.foldl PolicyBuilder.call b).rulesByProgram = b.rulesByProgram ++ calls.flatMap rulesOf ∧
      (calls.foldl PolicyBuilder.call b).pendingExampleValidations =
        b.pendingExampleValidations ++ calls.flatMap examplesOf ∧
      (calls.foldl PolicyBuilder.call b).hostExecutablesByName =
        calls.foldl executablesAfter b.hostExecutablesByName := by
  induction calls generalizing b with
  | nil => simp
  | cons call calls ih =>
    obtain ⟨hrules, hexamples, hexecutables⟩ := call_fields b call
    obtain ⟨ihrules, ihexamples, ihexecutables⟩ := ih (b.call call)
    rw [foldl_cons, ihrules, ihexamples, ihexecutables, hrules, hexamples, hexecutables]
    simp

theorem parse_eq_some {contents : Text} :
    parse env evaluate b contents = some c ↔
      ∃ calls, evaluate contents = some calls ∧
        (∀ e ∈ calls.flatMap examplesOf,
          PolicyBuilder.validates env
            (calls.foldl executablesAfter b.hostExecutablesByName) e = true) ∧
        calls.foldl PolicyBuilder.call b = c := by
  rw [parse, Option.bind_eq_bind, Option.bind_eq_some_iff]
  refine exists_congr fun calls => and_congr_right fun _ => ?_
  obtain ⟨-, hexamples, hexecutables⟩ := calls_fields calls b
  dsimp only
  rw [hexamples, hexecutables, drop_left]
  split
  · rename_i hall
    rw [Option.some.injEq, and_iff_right (all_eq_true.1 hall)]
  · rename_i hall
    refine iff_of_false (by simp) fun h => hall (all_eq_true.2 h.1)

def allowCall (command : List Text) : RuleCall :=
  .prefixRule (command.map .single) .allow none [] []

/-- The same but for a rule that may have come. -/
structure Extends (rule : Text × PrefixRule) (b b' : PolicyBuilder) : Prop where
  executables : b'.hostExecutablesByName = b.hostExecutablesByName
  kept : ∀ r ∈ b.rulesByProgram, r ∈ b'.rulesByProgram
  only : ∀ r ∈ b'.rulesByProgram, r ∈ b.rulesByProgram ∨ r = rule

theorem rulesOf_allowCall (first : Text) (rest : List Text) :
    rulesOf (allowCall (first :: rest)) = [(first, Policy.allowRule first rest)] := rfl

section Amended

variable (evaluate) (call : RuleCall)

/-- Texts of which some have been extended by a call, or are new and make that call only. -/
inductive Amended : List Text → List Text → Prop
  | nil : Amended [] []
  | same (t : Text) {l l' : List Text} : Amended l l' → Amended (t :: l) (t :: l')
  | extended {t t' : Text} {l l' : List Text} :
      (∀ calls, evaluate t = some calls → evaluate t' = some (calls ++ [call])) →
      Amended l l' → Amended (t :: l) (t' :: l')
  | inserted {t' : Text} {l l' : List Text} : evaluate t' = some [call] → Amended l l' →
    Amended l (t' :: l')

variable {evaluate call}

theorem Amended.refl (l : List Text) : Amended evaluate call l l := by
  induction l with
  | nil => exact .nil
  | cons t l ih => exact .same t ih

theorem Amended.append {l l' k k' : List Text} (h : Amended evaluate call l l')
    (h' : Amended evaluate call k k') :
    Amended evaluate call (l ++ k) (l' ++ k') := by
  induction h with
  | nil => exact h'
  | same t _ ih => exact .same t ih
  | extended hcalls _ ih => exact .extended hcalls ih
  | inserted hcalls _ ih => exact .inserted hcalls ih

end Amended

variable {first : Text} {rest : List Text}

/-- One file, with or without the call at its end. -/
theorem Extends.parse (h : Extends (first, Policy.allowRule first rest) b b')
    {calls extra : List RuleCall} (hextra : extra = [] ∨ extra = [allowCall (first :: rest)])
    (hvalid : ∀ e ∈ calls.flatMap examplesOf,
      PolicyBuilder.validates env (calls.foldl executablesAfter b.hostExecutablesByName) e = true)
    {contents : Text} (hcontents : evaluate contents = some (calls ++ extra)) :
    ∃ c', ExecPolicy.parse env evaluate b' contents = some c' ∧
      Extends (first, Policy.allowRule first rest) (calls.foldl PolicyBuilder.call b) c' := by
  have hexecutables : (calls ++ extra).foldl executablesAfter b'.hostExecutablesByName =
      calls.foldl executablesAfter b.hostExecutablesByName := by
    rw [foldl_append, h.executables]
    rcases hextra with rfl | rfl <;> rfl
  have hexamples : ∀ e ∈ extra.flatMap examplesOf, ∀ executables,
      PolicyBuilder.validates env executables e = true := by
    rcases hextra with rfl | rfl
    · simp
    · simp [allowCall, examplesOf, PolicyBuilder.validates]
  have hrules : ∀ r ∈ extra.flatMap rulesOf, r = (first, Policy.allowRule first rest) := by
    rcases hextra with rfl | rfl
    · simp
    · simp [rulesOf_allowCall]
  obtain ⟨hb, -, hbx⟩ := calls_fields calls b
  obtain ⟨hb', -, hbx'⟩ := calls_fields (calls ++ extra) b'
  refine ⟨_, parse_eq_some.2 ⟨calls ++ extra, hcontents, ?_, rfl⟩, ?_, ?_, ?_⟩
  · intro e he
    rw [hexecutables]
    rw [flatMap_append, mem_append] at he
    rcases he with he | he
    · exact hvalid e he
    · exact hexamples e he _
  · rw [hbx', hexecutables, hbx]
  · intro r hr
    rw [hb, mem_append] at hr
    rw [hb', flatMap_append]
    rcases hr with hr | hr
    · exact mem_append_left _ (h.kept r hr)
    · exact mem_append_right _ (mem_append_left _ hr)
  · intro r hr
    rw [hb', flatMap_append, mem_append, mem_append] at hr
    rw [hb, mem_append]
    rcases hr with hr | hr | hr
    · exact (h.only r hr).imp_left .inl
    · exact .inl (.inr hr)
    · exact .inr (hrules r hr)

theorem Amended.foldlM {l l' : List Text} (hl : Amended evaluate (allowCall (first :: rest)) l l')
    (h : Extends (first, Policy.allowRule first rest) b b')
    (hc : l.foldlM (ExecPolicy.parse env evaluate) b = some c) :
    ∃ c', l'.foldlM (ExecPolicy.parse env evaluate) b' = some c' ∧
      Extends (first, Policy.allowRule first rest) c c' := by
  induction hl generalizing b b' with
  | nil =>
    cases hc
    exact ⟨b', rfl, h⟩
  | same t _ ih =>
    obtain ⟨d, hd, hc⟩ := Option.bind_eq_some_iff.1 hc
    obtain ⟨calls, hcalls, hvalid, rfl⟩ := parse_eq_some.1 hd
    obtain ⟨d', hd', hextends⟩ := h.parse (.inl rfl) hvalid (hcalls.trans (by rw [append_nil]))
    rw [foldlM_cons, hd']
    exact ih hextends hc
  | extended hnew _ ih =>
    obtain ⟨d, hd, hc⟩ := Option.bind_eq_some_iff.1 hc
    obtain ⟨calls, hcalls, hvalid, rfl⟩ := parse_eq_some.1 hd
    obtain ⟨d', hd', hextends⟩ := h.parse (.inr rfl) hvalid (hnew calls hcalls)
    rw [foldlM_cons, hd']
    exact ih hextends hc
  | inserted hnew _ ih =>
    have hvalid : ∀ e ∈ ([] : List RuleCall).flatMap examplesOf, PolicyBuilder.validates env
        (([] : List RuleCall).foldl executablesAfter b.hostExecutablesByName) e = true := by simp
    obtain ⟨d', hd', hextends⟩ := h.parse (.inr rfl) hvalid hnew
    rw [foldlM_cons, hd']
    exact ih hextends hc

theorem foldlM_rules {l : List Text} (hc : l.foldlM (parse env evaluate) b = some c) :
    (∀ r ∈ b.rulesByProgram, r ∈ c.rulesByProgram) ∧
      ∀ t ∈ l, ∃ calls, evaluate t = some calls ∧
        ∀ r ∈ calls.flatMap rulesOf, r ∈ c.rulesByProgram := by
  induction l generalizing b with
  | nil =>
    cases hc
    exact ⟨fun r hr => hr, by simp⟩
  | cons t l ih =>
    obtain ⟨d, hd, hc⟩ := Option.bind_eq_some_iff.1 hc
    obtain ⟨calls, hcalls, -, rfl⟩ := parse_eq_some.1 hd
    obtain ⟨ihkept, ihrules⟩ := ih hc
    rw [(calls_fields calls b).1] at ihkept
    refine ⟨fun r hr => ihkept r (mem_append_left _ hr), fun t' ht' => ?_⟩
    rcases mem_cons.1 ht' with rfl | ht'
    · exact ⟨calls, hcalls, fun r hr => ihkept r (mem_append_right _ hr)⟩
    · exact ihrules t' ht'

variable (jsonString : Text → Text)

variable (evaluate) in
/-- The line of an amendment is read back from the end of a file as the call it stands for. -/
structure ParsesBack (contents : Text) (command : List Text) : Prop where
  empty : evaluate [] = some []
  appended : ∀ calls, evaluate contents = some calls →
    allowPrefixLine jsonString command ∉ Rust.lines contents →
    evaluate (appendLine contents (allowPrefixLine jsonString command)) =
      some (calls ++ [allowCall command])

def defaultContents (dir : RulesDir) : Text := ((dir.lookup defaultPolicyFile).map Prod.snd).getD []

theorem defaultContents_eq {dir : RulesDir} {row : Option (Text × Text)}
    (h : dir.lookup defaultPolicyFile = row) :
    defaultContents dir = (row.map Prod.snd).getD [] := by
  rw [defaultContents, h]

theorem collectPolicyFiles_append (dir : RulesDir) (line : Text) :
    ∃ before after, collectPolicyFiles dir =
      before ++ ((dir.lookup defaultPolicyFile).map Prod.snd).toList ++ after ∧
      collectPolicyFiles (appendToDir dir line) =
        before ++ appendLine (defaultContents dir) line :: after := by
  obtain ⟨before, after, hbefore, hafter⟩ :=
    dir.sorted_insert (defaultPolicyFile, appendLine (defaultContents dir) line)
  refine ⟨before.map Prod.snd, after.map Prod.snd, ?_, ?_⟩
  · rw [collectPolicyFiles, hbefore, map_append, map_append]
    cases dir.lookup defaultPolicyFile <;> rfl
  · exact (congrArg (map Prod.snd) hafter).trans (by rw [map_append, map_cons])

variable {command : List Text} {dir : RulesDir}

theorem collectPolicyFiles_unchanged {line : Text}
    (hold : line ∈ Rust.lines (defaultContents dir)) :
    collectPolicyFiles (appendToDir dir line) = collectPolicyFiles dir := by
  obtain ⟨before, after, hbefore, hafter⟩ := collectPolicyFiles_append dir line
  rw [hbefore, hafter, appendLine, if_pos hold]
  cases hlookup : dir.lookup defaultPolicyFile with
  | none =>
    rw [defaultContents_eq hlookup] at hold
    cases hold
  | some row =>
    simp [defaultContents_eq hlookup]

end Files

section Reload

variable {env : PathEnv} {evaluate : Text → Option (List RuleCall)} {π : Type} [DecidableEq π]
  {stack : ConfigStack π} {rulesDir : π → RulesDir} {codexHome : π} {command : List Text}
  {jsonString : Text → Text}

theorem Policy.mem_getVec {P : Policy} {program : Text} {rule : PrefixRule} :
    rule ∈ P.getVec program ↔ (program, rule) ∈ P.rulesByProgram := by
  simp [Policy.getVec]

def policyTexts (stack : ConfigStack π) (rulesDir : π → RulesDir) : List Text :=
  stack.rulesFolders.flatMap fun folder => collectPolicyFiles (rulesDir folder)

def ConfigStack.complete (stack : ConfigStack π) (builder : PolicyBuilder) : Policy :=
  match stack.requirements with
  | none => builder.build
  | some requirements => builder.build.mergeOverlay requirements

omit [DecidableEq π] in
theorem loadExecPolicy_eq_some {P : Policy} :
    loadExecPolicy env evaluate stack rulesDir = some P ↔
      ∃ builder, (policyTexts stack rulesDir).foldlM (parse env evaluate) {} = some builder ∧
        stack.complete builder = P := by
  rw [loadExecPolicy, Option.bind_eq_bind, Option.bind_eq_some_iff]
  refine exists_congr fun builder => and_congr_right fun _ => ?_
  rw [ConfigStack.complete]
  cases stack.requirements <;> exact Option.some.injEq _ _ |>.to_iff

/-- Whether an amendment brings its line into a file that is read. -/
def Adds (jsonString : Text → Text) (stack : ConfigStack π) (rulesDir : π → RulesDir)
    (codexHome : π)
    (command : List Text) : Prop :=
  codexHome ∈ stack.rulesFolders ∧
    allowPrefixLine jsonString command ∉ Rust.lines (defaultContents (rulesDir codexHome))

def amendedDir (jsonString : Text → Text) (rulesDir : π → RulesDir) (codexHome : π)
    (command : List Text) : π → RulesDir :=
  Function.update rulesDir codexHome
    (appendToDir (rulesDir codexHome) (allowPrefixLine jsonString command))

theorem policyTexts_unchanged (h : ¬ Adds jsonString stack rulesDir codexHome command) :
    policyTexts stack (amendedDir jsonString rulesDir codexHome command) =
      policyTexts stack rulesDir := by
  refine flatMap_congr fun folder hfolder => ?_
  by_cases hhome : folder = codexHome
  · subst hhome
    rw [amendedDir, update_self]
    refine collectPolicyFiles_unchanged ?_
    by_contra hnew
    exact h ⟨hfolder, hnew⟩
  · rw [amendedDir, update_of_ne hhome]

theorem policyTexts_amended
    (hparse : ParsesBack evaluate jsonString (defaultContents (rulesDir codexHome)) command)
    (h : Adds jsonString stack rulesDir codexHome command) :
    Amended evaluate (allowCall command) (policyTexts stack rulesDir)
      (policyTexts stack (amendedDir jsonString rulesDir codexHome command)) := by
  rw [policyTexts, policyTexts]
  induction stack.rulesFolders with
  | nil => exact .nil
  | cons folder folders ih =>
    rw [flatMap_cons, flatMap_cons]
    refine Amended.append ?_ ih
    by_cases hhome : folder = codexHome
    · rw [hhome, amendedDir, update_self]
      have hnew := h.2
      obtain ⟨before, after, hbefore, hafter⟩ :=
        collectPolicyFiles_append _ (allowPrefixLine jsonString command)
      rw [hbefore, hafter, append_assoc]
      refine (Amended.refl before).append ?_
      cases hlookup : (rulesDir codexHome).lookup defaultPolicyFile with
      | none =>
        rw [defaultContents_eq hlookup] at hnew hparse ⊢
        exact .inserted (hparse.appended [] hparse.empty hnew) (Amended.refl after)
      | some row =>
        rw [defaultContents_eq hlookup] at hnew hparse ⊢
        exact .extended (fun calls hcalls => hparse.appended calls hcalls hnew) (Amended.refl after)
    · rw [amendedDir, update_of_ne hhome]
      exact Amended.refl _

theorem mem_policyTexts_amended (h : Adds jsonString stack rulesDir codexHome command) :
    appendLine (defaultContents (rulesDir codexHome)) (allowPrefixLine jsonString command) ∈
        policyTexts stack (amendedDir jsonString rulesDir codexHome command) ∧
      (defaultContents (rulesDir codexHome) = [] ∨
        defaultContents (rulesDir codexHome) ∈ policyTexts stack rulesDir) := by
  obtain ⟨before, after, hbefore, hafter⟩ :=
    collectPolicyFiles_append (rulesDir codexHome) (allowPrefixLine jsonString command)
  constructor
  · refine mem_flatMap.2 ⟨codexHome, h.1, ?_⟩
    rw [amendedDir, update_self, hafter]
    exact mem_append_right _ mem_cons_self
  · cases hlookup : (rulesDir codexHome).lookup defaultPolicyFile with
    | none =>
      exact .inl (defaultContents_eq hlookup)
    | some row =>
      right
      refine mem_flatMap.2 ⟨codexHome, h.1, ?_⟩
      rw [hbefore, defaultContents, hlookup]
      simp

variable {P : Policy}

theorem reload_adds {first : Text} {rest : List Text}
    (hparse : ParsesBack evaluate jsonString (defaultContents (rulesDir codexHome)) (first :: rest))
    (hload : loadExecPolicy env evaluate stack rulesDir = some P)
    (h : Adds jsonString stack rulesDir codexHome (first :: rest)) :
    ∃ Q, loadExecPolicy env evaluate stack
      (amendedDir jsonString rulesDir codexHome (first :: rest)) = some Q ∧
      Policy.SameRules (P.withRule first rest) Q := by
  obtain ⟨builder, hbuilder, rfl⟩ := loadExecPolicy_eq_some.1 hload
  have hrefl : Extends (first, Policy.allowRule first rest) {} {} :=
    ⟨rfl, fun _ hr => hr, fun _ hr => .inl hr⟩
  obtain ⟨builder', hbuilder', hextends⟩ := (policyTexts_amended hparse h).foldlM hrefl hbuilder
  have hrule : (first, Policy.allowRule first rest) ∈ builder'.rulesByProgram := by
    obtain ⟨hmem, hold⟩ := mem_policyTexts_amended h
    obtain ⟨calls, hcalls⟩ : ∃ calls, evaluate (defaultContents (rulesDir codexHome)) =
        some calls := by
      rcases hold with hold | hold
      · exact ⟨[], hold ▸ hparse.empty⟩
      · exact ((foldlM_rules hbuilder).2 _ hold).imp fun _ h => h.1
    obtain ⟨calls', hcalls', hrules⟩ := (foldlM_rules hbuilder').2 _ hmem
    rw [hparse.appended calls hcalls h.2] at hcalls'
    cases hcalls'
    exact hrules _ (by simp [rulesOf_allowCall])
  refine ⟨stack.complete builder', loadExecPolicy_eq_some.2 ⟨builder', hbuilder', rfl⟩, ?_, ?_⟩
  · intro program rule
    have hmem : (program, rule) ∈ builder'.rulesByProgram ↔
        (program, rule) ∈ builder.rulesByProgram ∨
          (program, rule) = (first, Policy.allowRule first rest) := by
      constructor
      · exact hextends.only _
      · rintro (hr | hr)
        · exact hextends.kept _ hr
        · exact hr ▸ hrule
    rw [Policy.mem_getVec, Policy.mem_getVec, Policy.withRule, mem_append, mem_singleton,
      ConfigStack.complete, ConfigStack.complete]
    cases stack.requirements with
    | none => exact hmem.symm
    | some requirements =>
      simp only [Policy.mergeOverlay, mem_append]
      tauto
  · intro basename program
    rw [Policy.mayResolve_withRule, ConfigStack.complete, ConfigStack.complete]
    cases stack.requirements with
    | none => simp only [Policy.mayResolve, PolicyBuilder.build, hextends.executables]
    | some requirements =>
      simp only [Policy.mayResolve, PolicyBuilder.build, Policy.mergeOverlay, hextends.executables]

/-- After an amendment, the policy in memory and the policy of the amended files decide every
command alike just when both or neither have taken its rule up, or when the rule makes no
difference. -/
theorem amendment_survives_reload
    (hparse : ParsesBack evaluate jsonString (defaultContents (rulesDir codexHome)) command)
    (hload : loadExecPolicy env evaluate stack rulesDir = some P) {P' : Policy}
    {rulesDir' : π → RulesDir}
    (happend : appendAmendmentAndUpdate jsonString env P rulesDir codexHome command =
      some (P', rulesDir')) :
    ∃ Q, loadExecPolicy env evaluate stack rulesDir' = some Q ∧
      ((∀ cmd heuristics, P'.decides env cmd heuristics = Q.decides env cmd heuristics) ↔
        (alreadyAllowed env P command = false ↔ Adds jsonString stack rulesDir codexHome command) ∨
          Policy.Redundant env P command) := by
  cases command with
  | nil => simp [appendAmendmentAndUpdate] at happend
  | cons first rest =>
    rw [appendAmendmentAndUpdate, if_neg (cons_ne_nil _ _)] at happend
    have hredundant : _ ↔ Policy.Redundant env P (first :: rest) :=
      forall_congr' fun cmd => Policy.decides_withRule_iff env P first rest cmd
    -- what the files give
    have hfiles : ∃ Q, loadExecPolicy env evaluate stack
        (amendedDir jsonString rulesDir codexHome (first :: rest)) = some Q ∧
        ((Adds jsonString stack rulesDir codexHome (first :: rest) →
          ∀ cmd heuristics, (P.withRule first rest).decides env cmd heuristics =
            Q.decides env cmd heuristics) ∧
        (¬ Adds jsonString stack rulesDir codexHome (first :: rest) → Q = P)) := by
      by_cases hadds : Adds jsonString stack rulesDir codexHome (first :: rest)
      · obtain ⟨Q, hQ, hsame⟩ := reload_adds hparse hload hadds
        exact ⟨Q, hQ, fun _ _ _ => hsame.decides_eq, fun h => absurd hadds h⟩
      · refine ⟨P, ?_, fun h => absurd h hadds, fun _ => rfl⟩
        rw [loadExecPolicy_eq_some, policyTexts_unchanged hadds, ← loadExecPolicy_eq_some]
        exact hload
    obtain ⟨Q, hQ, hadded, hkept⟩ := hfiles
    by_cases hallowed : alreadyAllowed env P (first :: rest) = true
    · rw [if_pos hallowed] at happend
      obtain ⟨rfl, rfl⟩ := happend
      refine ⟨Q, hQ, ?_⟩
      rw [← hredundant]
      by_cases hadds : Adds jsonString stack rulesDir codexHome (first :: rest)
      · simp [hadds, hallowed, ← hadded hadds, eq_comm]
      · simp [hadds, hallowed, hkept hadds]
    · rw [if_neg hallowed, Policy.addPrefixRule_cons] at happend
      obtain ⟨rfl, rfl⟩ := happend
      refine ⟨Q, hQ, ?_⟩
      rw [← hredundant]
      by_cases hadds : Adds jsonString stack rulesDir codexHome (first :: rest)
      · simp [hadds, hallowed, hadded hadds]
      · simp [hadds, hallowed, hkept hadds]

end Reload

section Example

/-- serde's text of a string without quotes, backslashes and control characters. -/
def quoted (t : Text) : Text := '"' :: t ++ ['"']

/-- The user allows `git` but not `git push`. -/
def gitRules : Text :=
  ("prefix_rule(pattern=[\"git\"], decision=\"allow\")\n" ++
    "prefix_rule(pattern=[\"git\", \"push\"], decision=\"forbidden\")\n").toList

def gitCalls : List RuleCall :=
  [.prefixRule [.single "git".toList] .allow none [] [],
    .prefixRule [.single "git".toList, .single "push".toList] .forbidden none [] []]

/-- What the empty file, the rules of the user and these rules with an amendment evaluate to. -/
def evaluateGit (command : List Text) (t : Text) : Option (List RuleCall) :=
  if t = [] then some []
  else if t = gitRules then some gitCalls
  else if t = appendLine gitRules (allowPrefixLine quoted command) then
    some (gitCalls ++ [allowCall command])
  else none

def userStack : ConfigStack Unit := ⟨[⟨true, some ()⟩], false, none⟩

def gitDir : Unit → RulesDir := fun _ => Table.empty.insert (defaultPolicyFile, gitRules)

theorem parsesBack_evaluateGit {command : List Text}
    (hnew : appendLine gitRules (allowPrefixLine quoted command) ∉ [[], gitRules]) :
    ParsesBack (evaluateGit command) quoted (defaultContents (gitDir ())) command := by
  simp only [mem_cons, not_mem_nil, or_false, not_or] at hnew
  have hcontents : defaultContents (gitDir ()) = gitRules := by decide +kernel
  rw [hcontents]
  refine ⟨rfl, fun calls hcalls _ => ?_⟩
  obtain rfl : gitCalls = calls := Option.some.inj hcalls
  rw [evaluateGit, if_neg hnew.1, if_neg hnew.2, if_pos rfl]

theorem of_load {α : Type} {loaded : Option Policy} {P : Policy} (hload : loaded = some P)
    {f : Policy → α} {a : α}
    (h : loaded.map f = some a) : f P = a := by
  rw [hload] at h
  exact Option.some.inj h

theorem amendment_survives_reload_new :
    ∃ P P' rulesDir' Q,
      loadExecPolicy ⟨none, none⟩ (evaluateGit ["ls".toList]) userStack gitDir = some P ∧
      appendAmendmentAndUpdate quoted ⟨none, none⟩ P gitDir () ["ls".toList] =
        some (P', rulesDir') ∧
      loadExecPolicy ⟨none, none⟩ (evaluateGit ["ls".toList]) userStack rulesDir' = some Q ∧
      ∀ cmd heuristics, P'.decides ⟨none, none⟩ cmd heuristics =
        Q.decides ⟨none, none⟩ cmd heuristics := by
  have hparse : ParsesBack (evaluateGit ["ls".toList]) quoted (defaultContents (gitDir ()))
      ["ls".toList] :=
    parsesBack_evaluateGit (by decide +kernel)
  obtain ⟨P, hload⟩ : ∃ P, loadExecPolicy ⟨none,
      none⟩ (evaluateGit ["ls".toList]) userStack gitDir = some P :=
    Option.isSome_iff_exists.1 (by decide +kernel)
  have hallowed : alreadyAllowed ⟨none, none⟩ P ["ls".toList] = false :=
    of_load hload (f := (alreadyAllowed ⟨none, none⟩ · ["ls".toList])) (by decide +kernel)
  have happend : appendAmendmentAndUpdate quoted ⟨none, none⟩ P gitDir () ["ls".toList] =
      some (P.withRule "ls".toList [], amendedDir quoted gitDir () ["ls".toList]) := by
    rw [appendAmendmentAndUpdate, hallowed]
    rfl
  obtain ⟨Q, hQ, hsame⟩ := amendment_survives_reload hparse hload happend
  refine ⟨P, _, _, Q, hload, happend, hQ, hsame.2 (.inl (iff_of_true hallowed ⟨?_, ?_⟩))⟩
  · decide
  · decide +kernel

/-- `/usr/bin/git` is allowed by name, so memory does not take the amendment up; once it is read
from the file it hides the rule that forbids `git push`. -/
theorem reloaded_amendment_hides :
    ParsesBack (evaluateGit ["/usr/bin/git".toList]) quoted (defaultContents (gitDir ()))
      ["/usr/bin/git".toList] ∧
    ∃ P P' rulesDir' Q,
      loadExecPolicy ⟨none, none⟩ (evaluateGit ["/usr/bin/git".toList]) userStack gitDir = some P ∧
      appendAmendmentAndUpdate quoted ⟨none, none⟩ P gitDir () ["/usr/bin/git".toList] =
        some (P', rulesDir') ∧
      loadExecPolicy ⟨none, none⟩
        (evaluateGit ["/usr/bin/git".toList]) userStack rulesDir' = some Q ∧
      P'.decides ⟨none, none⟩ ["/usr/bin/git".toList, "push".toList] (fun _ => .prompt) =
        some .forbidden ∧
      Q.decides ⟨none, none⟩ ["/usr/bin/git".toList, "push".toList] (fun _ => .prompt) =
        some .allow := by
  refine ⟨parsesBack_evaluateGit (by decide +kernel), ?_⟩
  obtain ⟨P, hload⟩ : ∃ P, loadExecPolicy ⟨none,
      none⟩ (evaluateGit ["/usr/bin/git".toList]) userStack
      gitDir = some P := Option.isSome_iff_exists.1 (by decide +kernel)
  obtain ⟨Q, hreload⟩ : ∃ Q, loadExecPolicy ⟨none,
      none⟩ (evaluateGit ["/usr/bin/git".toList]) userStack
      (amendedDir quoted gitDir () ["/usr/bin/git".toList]) = some Q :=
        Option.isSome_iff_exists.1 (by decide +kernel)
  have hallowed : alreadyAllowed ⟨none, none⟩ P ["/usr/bin/git".toList] = true :=
    of_load hload (f := (alreadyAllowed ⟨none, none⟩ · ["/usr/bin/git".toList])) (by decide +kernel)
  refine ⟨P, P, _, Q, hload, ?_, hreload, ?_, ?_⟩
  · rw [appendAmendmentAndUpdate, hallowed]
    rfl
  · exact of_load hload (f := (Policy.decides ⟨none, none⟩ · ["/usr/bin/git".toList, "push".toList]
      (fun _ => .prompt))) (by decide +kernel)
  · exact of_load hreload
      (f := (Policy.decides ⟨none, none⟩ · ["/usr/bin/git".toList, "push".toList]
      (fun _ => .prompt))) (by decide +kernel)

end Example

end OmniDoer.ExecPolicy
