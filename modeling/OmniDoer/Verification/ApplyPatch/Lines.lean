import OmniDoer.Model.ApplyPatch

/-! # Lines that are looked for and lines that are kept

The search takes the first place of the strictest comparison that has one. An update joins
its lines with line breaks, and loses the last one when a blank line comes last. -/

namespace OmniDoer.ApplyPatch

open Rust List

variable {lines pattern : List Text} {view : Text → Text} {start i : ℕ}

/-- The places at which the pattern can lie, from `start` on. -/
def InRange (lines pattern : List Text) (start i : ℕ) : Prop :=
  start ≤ i ∧ i + pattern.length ≤ lines.length

/-- The lines from `i` on are those of the pattern, as the comparison sees them. -/
def MatchesAt (view : Text → Text) (lines pattern : List Text) (i : ℕ) : Prop :=
  ((lines.drop i).take pattern.length).map view = pattern.map view

variable (hlen : pattern.length ≤ lines.length)

include hlen in
theorem mem_searchRange_iff :
    i ∈ searchRange lines pattern start ↔ InRange lines pattern start i := by
  simp only [searchRange, mem_range'_1, InRange]
  omega

include hlen in
theorem seekBy_eq_none_iff :
    seekBy view lines pattern start = none ↔
      ∀ i, InRange lines pattern start i → ¬ MatchesAt view lines pattern i := by
  simp [seekBy, mem_searchRange_iff hlen, MatchesAt]

/-- `i` is the first place from `start` on. -/
structure FirstMatch (view : Text → Text) (lines pattern : List Text) (start i : ℕ) : Prop where
  inRange : InRange lines pattern start i
  found : MatchesAt view lines pattern i
  first : ∀ j < i, InRange lines pattern start j → ¬ MatchesAt view lines pattern j

include hlen in
theorem firstMatch_of_seekBy
    (h : seekBy view lines pattern start = some i) : FirstMatch view lines pattern start i := by
  rw [seekBy, searchRange, find?_range'_eq_some] at h
  obtain ⟨hfound, hmem, hfirst⟩ := h
  refine ⟨(mem_searchRange_iff hlen).1 hmem, eq_of_beq hfound, fun j hj hrange hmatch => ?_⟩
  have hnot := hfirst j hrange.1 hj
  rw [MatchesAt] at hmatch
  simp [hmatch] at hnot

/-- The comparisons of the search, the strictest first. -/
def comparisons : List (Text → Text) := [id, trimEnd, trim, normalise]

theorem trim_trimEnd (t : Text) : trim (trimEnd t) = trim t := by
  have ht : trimEnd t ++ t.rtakeWhile isWhitespace = t := rdropWhile_append_rtakeWhile
  conv_rhs => rw [← ht]
  exact (trim_append_right fun c hc => mem_rtakeWhile_imp hc).symm

theorem normalise_factors (hview : view ∈ comparisons) : ∃ rest, rest ∘ view = normalise := by
  simp only [comparisons, mem_cons, not_mem_nil, or_false] at hview
  rcases hview with rfl | rfl | rfl | rfl
  · exact ⟨normalise, rfl⟩
  · exact ⟨normalise, funext fun s => congrArg (map normaliseChar) (trim_trimEnd s)⟩
  · exact ⟨map normaliseChar, rfl⟩
  · exact ⟨id, rfl⟩

include hlen in
theorem seekSequence_eq_findSome? {eof : Bool} (hne : pattern ≠ []) :
    seekSequence lines pattern start eof = comparisons.findSome? fun view =>
      seekBy view lines pattern (if eof then lines.length - pattern.length else start) := by
  simp only [seekSequence, comparisons]
  grind

/-- For every nonempty pattern: nothing is found just when no place matches under the loosest
comparison, and what is found is the first place of the strictest comparison that matches
anywhere. The comparisons are nested, and every place that is tried lies within the lines. -/
theorem seekSequence_first_strictest (lines pattern : List Text) (hne : pattern ≠ []) (start : ℕ)
    (eof : Bool) :
    let searchStart := if eof then lines.length - pattern.length else start
    (seekSequence lines pattern start eof = none ↔
      ∀ i, InRange lines pattern searchStart i → ¬ MatchesAt normalise lines pattern i) ∧
    (∀ i, seekSequence lines pattern start eof = some i →
      ∃ stricter view looser, comparisons = stricter ++ view :: looser ∧
        (∀ view' ∈ stricter, ∀ j, InRange lines pattern searchStart j →
          ¬ MatchesAt view' lines pattern j) ∧
        FirstMatch view lines pattern searchStart i) ∧
    (∀ s t : Text, (s = t → trimEnd s = trimEnd t) ∧ (trimEnd s = trimEnd t → trim s = trim t) ∧
      (trim s = trim t → normalise s = normalise t)) ∧
    (pattern.length ≤ lines.length →
      ∀ i ∈ searchRange lines pattern searchStart, i + pattern.length ≤ lines.length) := by
  intro searchStart
  refine ⟨?_, fun i hfound => ?_,
    fun s t => ⟨congrArg trimEnd, fun h => ?_, congrArg (map normaliseChar)⟩,
    fun hlen i hi => ((mem_searchRange_iff hlen).1 hi).2⟩
  · by_cases hlen : pattern.length ≤ lines.length
    · rw [seekSequence_eq_findSome? hlen hne, findSome?_eq_none_iff]
      simp only [seekBy_eq_none_iff hlen]
      refine ⟨fun h => h normalise (by simp [comparisons]), fun h view hview i hi hmatch => ?_⟩
      obtain ⟨rest, hrest⟩ := normalise_factors hview
      refine h i hi ?_
      rw [MatchesAt, ← hrest, ← map_map, hmatch, map_map]
    · -- the pattern is longer than the lines: nothing is tried
      refine iff_of_true (by simp [seekSequence, hne, Nat.not_le.1 hlen]) fun i hi => ?_
      exact absurd (Nat.le_trans (Nat.le_add_left _ _) hi.2) hlen
  · have hlen : pattern.length ≤ lines.length := by
      by_contra hlong
      simp [seekSequence, hne, Nat.not_le.1 hlong] at hfound
    rw [seekSequence_eq_findSome? hlen hne, findSome?_eq_some_iff] at hfound
    obtain ⟨stricter, view, looser, hsplit, hview, hstricter⟩ := hfound
    refine ⟨stricter, view, looser, hsplit, fun view' hview' => ?_, firstMatch_of_seekBy hlen hview⟩
    exact (seekBy_eq_none_iff hlen).1 (hstricter view' hview')
  · rw [← trim_trimEnd s, h, trim_trimEnd]

theorem seekSequence_first_strictest_trimmed :
    seekSequence ["a ".toList, "b".toList, "a".toList] ["a".toList] 0 false = some 2 ∧
      ∃ stricter view looser, comparisons = stricter ++ view :: looser ∧
        (∀ view' ∈ stricter, ∀ j, InRange ["a ".toList, "b".toList, "a".toList] ["a".toList] 0 j →
          ¬ MatchesAt view' ["a ".toList, "b".toList, "a".toList] ["a".toList] j) ∧
        FirstMatch view ["a ".toList, "b".toList, "a".toList] ["a".toList] 0 2 :=
  ⟨by decide, (seekSequence_first_strictest _ ["a".toList] (by decide) 0 false).2.1 2 (by decide)⟩

/-- The lines of a file, the last one also when no line break ends it. -/
def fileLines (original : Text) : List Text :=
  if endsEmpty (splitNewlines original) then (splitNewlines original).dropLast
  else splitNewlines original

/-- Every line with its line break. -/
def terminated (lines : List Text) : Text := lines.flatMap (· ++ ['\n'])

theorem endsEmpty_concat (lines : List Text) (line : Text) :
    endsEmpty (lines ++ [line]) = (line == []) := by
  rw [endsEmpty, getLast?_concat]
  rfl

theorem joinNewlines_concat_nil (lines : List Text) :
    joinNewlines (lines ++ [[]]) = terminated lines := by
  induction lines with
  | nil => rfl
  | cons line rest ih =>
    have hne : rest ++ [[]] ≠ [] := by simp
    rw [terminated, flatMap_cons, ← terminated, ← ih, joinNewlines, cons_append,
      intercalate_cons_of_ne_nil hne]
    rfl

theorem joinNewlines_ne_terminated (h : endsEmpty lines = true) :
    joinNewlines lines ≠ terminated lines := by
  obtain ⟨front, rfl⟩ : ∃ front, lines = front ++ [[]] := by
    obtain ⟨front, hfront⟩ := getLast?_eq_some_iff.1 (eq_of_beq h)
    exact ⟨front, hfront⟩
  rw [joinNewlines_concat_nil]
  intro heq
  have hlength := congrArg length heq
  simp [terminated] at hlength

/-- How many of `n` lines the replacements leave, the last one first. -/
def lengthAfter (n : ℕ) (replacements : List Replacement) : ℕ :=
  replacements.foldr (fun r n => min r.start n + r.newLines.length + (n - (r.start + r.oldLen))) n

/-- The line that comes last after the replacements. A replacement reaches the end where those
after it leave no line behind its old ones: then the last of its new lines comes last, or the line
before it if it has none. -/
def lastLine (lines : List Text) : List Replacement → Option Text
  | [] => lines.getLast?
  | r :: later =>
    if lengthAfter lines.length later ≤ r.start + r.oldLen then
      r.newLines.getLast?.or (lines.take r.start).getLast?
    else lastLine lines later

section Replaced

variable {path : Text} {chunks : List UpdateFileChunk} {replacements : List Replacement}

theorem seekSequence_le {eof : Bool} (hstart : start ≤ lines.length)
    (h : seekSequence lines pattern start eof = some i) : i + pattern.length ≤ lines.length := by
  by_cases hne : pattern = []
  · rw [seekSequence, if_pos hne] at h
    cases h
    rwa [hne]
  · by_cases hlen : pattern.length ≤ lines.length
    · rw [seekSequence_eq_findSome? hlen hne] at h
      obtain ⟨view, -, hview⟩ := exists_of_findSome?_eq_some h
      exact (firstMatch_of_seekBy hlen hview).inRange.2
    · simp [seekSequence, hne, Nat.not_le.1 hlen] at h

theorem seekContext_le {context : Option Text} (hstart : start ≤ lines.length)
    (h : seekContext lines path start context = .ok i) : i ≤ lines.length := by
  cases context with
  | none =>
    cases h
    exact hstart
  | some context =>
    rw [seekContext] at h
    cases hseek : seekSequence lines [context] start false with
    | none => simp [hseek] at h
    | some j =>
      simp only [hseek, Except.ok.injEq] at h
      exact h ▸ seekSequence_le hstart hseek

theorem seekOldLines_le {chunk : UpdateFileChunk} {r : Replacement} (hstart : start ≤ lines.length)
    (h : seekOldLines lines start chunk = some r) : r.start + r.oldLen ≤ lines.length := by
  rw [seekOldLines] at h
  cases hseek : seekSequence lines chunk.oldLines start chunk.isEndOfFile with
  | some j =>
    simp only [hseek, Option.some.injEq] at h
    exact h ▸ seekSequence_le hstart hseek
  | none =>
    simp only [hseek] at h
    split at h
    · obtain ⟨j, hj, rfl⟩ := Option.map_eq_some_iff.1 h
      exact seekSequence_le hstart hj
    · cases h

theorem chunkReplacements_start_le (hstart : start ≤ lines.length)
    (h : chunkReplacements lines path chunks start = .ok replacements) :
    ∀ r ∈ replacements, r.start ≤ lines.length := by
  induction chunks generalizing start replacements with
  | nil =>
    cases h
    simp
  | cons chunk rest ih =>
    rw [chunkReplacements] at h
    cases hcontext : seekContext lines path start chunk.changeContext with
    | error e =>
      rw [hcontext] at h
      cases h
    | ok lineIndex =>
      have hindex := seekContext_le hstart hcontext
      simp only [hcontext, bind, Except.bind] at h
      split at h
      · split at h
        · cases h
        · rename_i later hlater
          cases h
          simp only [mem_cons, forall_eq_or_imp]
          refine ⟨?_, ih hindex hlater⟩
          split <;> omega
      · split at h
        · rename_i r hr
          have hle := seekOldLines_le hindex hr
          split at h
          · cases h
          · rename_i later hlater
            cases h
            simp only [mem_cons, forall_eq_or_imp]
            exact ⟨by omega, ih hle hlater⟩
        · cases h

/-- The replacements come in the order of their places, which lie within the lines. -/
theorem computeReplacements_spec (h : computeReplacements lines path chunks = .ok replacements) :
    replacements.Pairwise (·.start ≤ ·.start) ∧ ∀ r ∈ replacements, r.start ≤ lines.length := by
  rw [computeReplacements] at h
  cases hchunks : chunkReplacements lines path chunks 0 with
  | error e =>
    rw [hchunks] at h
    cases h
  | ok unsorted =>
    rw [hchunks] at h
    cases h
    refine ⟨pairwise_insertionSort _ _, fun r hr => ?_⟩
    exact chunkReplacements_start_le (Nat.zero_le _) hchunks r ((mem_insertionSort _).1 hr)

theorem length_applyReplacements (lines : List Text) (replacements : List Replacement) :
    (applyReplacements lines replacements).length = lengthAfter lines.length replacements := by
  induction replacements with
  | nil => rfl
  | cons r later ih =>
    rw [applyReplacements, foldr_cons, ← applyReplacements, lengthAfter, foldr_cons, ← lengthAfter,
      ← ih, applyReplacement]
    simp [Nat.add_assoc]

/-- Nothing is replaced before the first place. -/
theorem take_applyReplacements {n : ℕ} (hn : n ≤ lines.length)
    (hafter : ∀ r ∈ replacements, n ≤ r.start) :
    (applyReplacements lines replacements).take n = lines.take n := by
  induction replacements with
  | nil => rfl
  | cons r later ih =>
    simp only [mem_cons, forall_eq_or_imp] at hafter
    have hlater := ih hafter.2
    have hlength : n ≤ (applyReplacements lines later).length := by
      have h := congrArg length hlater
      simp only [length_take] at h
      omega
    rw [applyReplacements, foldr_cons, ← applyReplacements, applyReplacement, append_assoc,
      take_append_of_le_length (by simp [hafter.1, hlength]), take_take,
        min_eq_left hafter.1, hlater]

theorem getLast?_applyReplacements (hsorted : replacements.Pairwise (·.start ≤ ·.start))
    (hwithin : ∀ r ∈ replacements, r.start ≤ lines.length) :
    (applyReplacements lines replacements).getLast? = lastLine lines replacements := by
  induction replacements with
  | nil => rfl
  | cons r later ih =>
    rw [pairwise_cons] at hsorted
    simp only [mem_cons, forall_eq_or_imp] at hwithin
    rw [applyReplacements, foldr_cons, ← applyReplacements, applyReplacement, lastLine,
      ← ih hsorted.2 hwithin.2, ← length_applyReplacements,
      take_applyReplacements hwithin.1 hsorted.1]
    split
    · rename_i hend
      rw [drop_eq_nil_of_le hend, append_nil, getLast?_append]
    · rename_i hbehind
      rw [getLast?_append, getLast?_drop, if_neg hbehind]
      cases hlast : (applyReplacements lines later).getLast? with
      | some line => rfl
      | none =>
        rw [getLast?_eq_none_iff.1 hlast] at hbehind
        simp at hbehind

/-- The new contents are the substituted lines with their line breaks, save where a blank line
comes last: it is taken for the end of the line before it. -/
theorem newContents_terminated_iff {original : Text}
    (h : computeReplacements (fileLines original) path chunks = .ok replacements) :
    newContents path chunks original =
        .ok (terminated (applyReplacements (fileLines original) replacements)) ↔
      lastLine (fileLines original) replacements ≠ some [] := by
  have hnew : newContents path chunks original =
      .ok (joinNewlines (if endsEmpty (applyReplacements (fileLines original) replacements)
        then applyReplacements (fileLines original) replacements
        else applyReplacements (fileLines original) replacements ++ [[]])) := by
    rw [fileLines] at h ⊢
    rw [newContents, h]
    rfl
  obtain ⟨hsorted, hwithin⟩ := computeReplacements_spec h
  rw [hnew, ← getLast?_applyReplacements hsorted hwithin]
  cases hends : endsEmpty (applyReplacements (fileLines original) replacements) with
  | false =>
    refine iff_of_true (by simpa using joinNewlines_concat_nil _) fun hlast => ?_
    simp [endsEmpty, hlast] at hends
  | true =>
    exact iff_of_false (by simpa using joinNewlines_ne_terminated hends)
      (not_not.2 (eq_of_beq hends))

end Replaced

/-- The chunk takes the blank line at the end of the file away and leaves a last line. -/
theorem newContents_terminated_blank_removed :
    newContents [] [⟨none, ["a".toList, []], ["b".toList], false⟩] "x\na\n\n".toList =
      .ok "x\nb\n".toList :=
  (newContents_terminated_iff
    (show computeReplacements _ _ _ = .ok [⟨1, 2, ["b".toList]⟩] from rfl)).2 (by decide +kernel)

/-- A blank line at the end of the file, which no chunk touches, is lost. -/
theorem newContents_loses_blank_line :
    computeReplacements (fileLines "a\n\n".toList) [] [⟨none, ["a".toList], ["b".toList], false⟩] =
        .ok [⟨0, 1, ["b".toList]⟩] ∧
      terminated (applyReplacements (fileLines "a\n\n".toList) [⟨0, 1, ["b".toList]⟩]) =
        "b\n\n".toList ∧
      newContents [] [⟨none, ["a".toList], ["b".toList], false⟩] "a\n\n".toList =
        .ok "b\n".toList :=
  ⟨rfl, rfl, rfl⟩

end OmniDoer.ApplyPatch
