import OmniDoer.Library.PyHash
import OmniDoer.Library.PyJsonRead
import OmniDoer.Library.RegexMiss
import OmniDoer.Model.Redactor

/-! # What redaction leaves alone

A hexadecimal digest is a single word. Some obligatory class of four of the text
patterns accepts no hexadecimal digit, and the other two match between word boundaries
and are too short for a digest. Redaction also keeps the shape of a value: the keys
stay, and only strings change. -/

namespace OmniDoer.Redactor

open Py Re Re.Pattern

def hexAlphabet : List Char := "0123456789abcdef".toList

variable (u : UnicodeData)

theorem isWord_of_hex : ∀ c ∈ hexAlphabet, u.isWord c = true := by
  intro c hc
  have hascii : ∀ c ∈ hexAlphabet, c.toNat < 128 ∧ c.isAlphanum = true :=
    List.forall_iff_forall_mem.1 (by decide)
  rw [UnicodeData.isWord, u.isAlnum_ascii c (hascii c hc).1, (hascii c hc).2, Bool.true_or]

theorem misses_hexAlphabet :
    ∀ pattern ∈ [bearerPattern, apiKeyPattern, emailPattern, labelledSecretPattern],
      pattern.misses hexAlphabet = true := by
  decide +kernel

theorem redactChars_digest {text : List Char}
    (htext : ∀ c ∈ text, c ∈ hexAlphabet) (hlength : 38 < text.length) :
    redactChars u text = text := by
  have hmiss : ∀ pattern ∈ [bearerPattern, apiKeyPattern, emailPattern, labelledSecretPattern],
      pattern.sub u.isWord redacted.toList text = text := fun pattern hpattern =>
    sub_eq_self_of_misses (misses_hexAlphabet pattern hpattern) htext redacted.toList
  have hword : ∀ c ∈ text, u.isWord c = true := fun c hc => isWord_of_hex u c (htext c hc)
  have hcard : cardPattern.sub u.isWord redacted.toList text = text :=
    sub_eq_self_of_longest (n := 38) (by decide) rfl hword hlength _
  have hcode : challengeCodePattern.sub u.isWord redacted.toList text = text :=
    sub_eq_self_of_longest (n := 17) (by decide) rfl hword (by omega) _
  simp [redactChars, textPatterns, hmiss bearerPattern (by simp), hmiss apiKeyPattern (by simp),
    hcard, hmiss emailPattern (by simp), hmiss labelledSecretPattern (by simp), hcode]

theorem redactLabelItems_eq (items : List Json) :
    redactLabelItems u items = items.map (redactLabelMap u) := by
  induction items with
  | nil => rfl
  | cons v rest ih => rw [redactLabelItems, ih, List.map_cons]

theorem redactLabelMembers_eq (members : Dict) :
    redactLabelMembers u members = members.map fun m => (m.1, redactLabelMap u m.2) := by
  induction members with
  | nil => rfl
  | cons m rest ih => rw [redactLabelMembers, ih, List.map_cons]

theorem redactItems_eq (py : Interpreter) (items : List Json) :
    redactItems py items = items.map (redactDomSnapshot py) := by
  induction items with
  | nil => rfl
  | cons v rest ih => rw [redactItems, ih, List.map_cons]

/-- What becomes of the value under a key. -/
def redactMember (py : Interpreter) (sensitive : Bool) (key : String) (item : Json) : Json :=
  if labelMapKeys.contains key then redactLabelMap py.toUnicodeData item
  else if sensitive && ["value", "text", "name", "description"].contains (py.lower key) then
    .str redacted
  else if secretFieldRe.search py.isWord key.toList then .str redacted
  else redactDomSnapshot py item

theorem redactMembers_eq (py : Interpreter) (sensitive : Bool) (members : Dict) :
    redactMembers py sensitive members =
      members.map fun m => (m.1, redactMember py sensitive m.1 m.2) := by
  induction members with
  | nil => rfl
  | cons m rest ih =>
    rw [redactMembers, ih]
    rfl

variable {py : Interpreter}

theorem readable_obj_map {members : Dict} (hkeys : (members.map Prod.fst).Nodup)
    {f : String → Json → Json} (hf : ∀ m ∈ members, (f m.1 m.2).Readable py) :
    (Json.obj (members.map fun m => (m.1, f m.1 m.2))).Readable py := by
  refine .obj (by simpa [Function.comp_def] using hkeys) ?_
  intro m hm
  obtain ⟨m₀, hm₀, rfl⟩ := List.mem_map.1 hm
  exact hf m₀ hm₀

theorem redactLabelMap_readable {v : Json} (h : v.Readable py) :
    (redactLabelMap py.toUnicodeData v).Readable py := by
  induction h with
  | str s => exact .str _
  | @arr items hitems ih =>
    rw [redactLabelMap, redactLabelItems_eq]
    exact .arr (by simpa using ih)
  | @obj members hkeys hmembers ih =>
    rw [redactLabelMap, redactLabelMembers_eq]
    exact readable_obj_map (f := fun _ v => redactLabelMap py.toUnicodeData v) hkeys ih
  | null | bool | int | nan | inf => constructor
  | float h => exact .float h

theorem redactDomSnapshot_readable {v : Json} (h : v.Readable py) :
    (redactDomSnapshot py v).Readable py := by
  induction h with
  | str s => exact .str _
  | @arr items hitems ih =>
    rw [redactDomSnapshot, redactItems_eq]
    exact .arr (by simpa using ih)
  | @obj members hkeys hmembers ih =>
    rw [redactDomSnapshot, redactMembers_eq]
    refine readable_obj_map hkeys fun m hm => ?_
    unfold redactMember
    split
    · exact redactLabelMap_readable (hmembers m hm)
    · split
      · exact .str _
      · split
        · exact .str _
        · exact (ih m hm)
  | null | bool | int | nan | inf => constructor
  | float h => exact .float h

end OmniDoer.Redactor
