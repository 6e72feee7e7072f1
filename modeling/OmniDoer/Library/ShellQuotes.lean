import OmniDoer.Library.RustText

/-! Quoting in POSIX shells: what is left of a word when the shell has removed its quotes. -/

namespace Shell

open Rust List

/-- What a backslash escapes between double quotes. -/
def isEscapable (c : Char) : Bool := "$`\"\\\n".toList.contains c

inductive Quoting where
  | none
  | single
  | double

/-- Quote removal. A backslash before a line break goes with the break. -/
@[simp]
def removeQuotes : Quoting → Text → Text
  | _, [] => []
  | .none, '\\' :: c :: rest =>
    if c = '\n' then removeQuotes .none rest else c :: removeQuotes .none rest
  | .none, '\'' :: rest => removeQuotes .single rest
  | .none, '"' :: rest => removeQuotes .double rest
  | .none, c :: rest => c :: removeQuotes .none rest
  | .single, '\'' :: rest => removeQuotes .none rest
  | .single, c :: rest => c :: removeQuotes .single rest
  | .double, '\\' :: c :: rest =>
    if c = '\n' then removeQuotes .double rest
    else if isEscapable c then c :: removeQuotes .double rest
    else '\\' :: c :: removeQuotes .double rest
  | .double, '"' :: rest => removeQuotes .none rest
  | .double, c :: rest => c :: removeQuotes .double rest

/-- Text without quotes in which every backslash escapes a character. -/
inductive Bare : Text → Prop
  | nil : Bare []
  | escaped (c : Char) {rest : Text} : Bare rest → Bare ('\\' :: c :: rest)
  | plain {c : Char} {rest : Text} : c ≠ '\\' → c ≠ '\'' → c ≠ '"' → Bare rest → Bare (c :: rest)

theorem bare_of_plain {t : Text} (h : ∀ c ∈ t, c ≠ '\\' ∧ c ≠ '\'' ∧ c ≠ '"') : Bare t := by
  induction t with
  | nil => exact .nil
  | cons c t ih =>
    obtain ⟨hb, hs, hd⟩ := h c mem_cons_self
    exact .plain hb hs hd (ih fun d hd => h d (mem_cons_of_mem _ hd))

/-- Text between double quotes. -/
inductive Quoted : Text → Prop
  | nil : Quoted []
  | escaped (c : Char) {rest : Text} : Quoted rest → Quoted ('\\' :: c :: rest)
  | plain {c : Char} {rest : Text} : c ≠ '\\' → c ≠ '"' → Quoted rest → Quoted (c :: rest)

section Removal

variable {t rest : Text} {c : Char}

theorem removeQuotes_plain (hb : c ≠ '\\') (hs : c ≠ '\'') (hd : c ≠ '"') :
    removeQuotes .none (c :: rest) = c :: removeQuotes .none rest := by
  rw [removeQuotes]
  · rintro c' rest' rfl
    exact absurd rfl hb
  · exact hs
  · exact hd

theorem removeQuotes_double_plain (hb : c ≠ '\\') (hd : c ≠ '"') :
    removeQuotes .double (c :: rest) = c :: removeQuotes .double rest := by
  rw [removeQuotes]
  · rintro c' rest' rfl
    exact absurd rfl hb
  · exact hd

theorem removeQuotes_single_plain (hs : c ≠ '\'') :
    removeQuotes .single (c :: rest) = c :: removeQuotes .single rest := by
  rw [removeQuotes]
  exact hs

theorem Bare.removeQuotes_append (h : Bare t) (rest : Text) :
    removeQuotes .none (t ++ rest) = removeQuotes .none t ++ removeQuotes .none rest := by
  induction h with
  | nil => rfl
  | escaped c _ ih =>
    rw [cons_append, cons_append, removeQuotes, removeQuotes, ih]
    split <;> rfl
  | plain hb hs hd _ ih =>
    rw [cons_append, removeQuotes_plain hb hs hd, removeQuotes_plain hb hs hd, ih, cons_append]

theorem Quoted.removeQuotes_close (h : Quoted t) (rest : Text) :
    removeQuotes .double (t ++ '"' :: rest) =
      removeQuotes .double t ++ removeQuotes .none rest := by
  induction h with
  | nil =>
    rfl
  | escaped c _ ih =>
    rw [cons_append, cons_append, removeQuotes, removeQuotes, ih]
    split
    · rfl
    · split <;> rfl
  | plain hb hd _ ih =>
    rw [cons_append, removeQuotes_double_plain hb hd, removeQuotes_double_plain hb hd, ih,
      cons_append]

theorem Quoted.removeQuotes_append (h : Quoted t) (rest : Text) :
    removeQuotes .none ('"' :: t ++ ['"'] ++ rest) =
      removeQuotes .double t ++ removeQuotes .none rest := by
  have hopen : '"' :: t ++ ['"'] ++ rest = '"' :: (t ++ '"' :: rest) := by simp
  rw [hopen, removeQuotes, h.removeQuotes_close]

theorem removeQuotes_single_append (h : '\'' ∉ t) (rest : Text) :
    removeQuotes .none ('\'' :: t ++ ['\''] ++ rest) = t ++ removeQuotes .none rest := by
  have hclose : removeQuotes .single (t ++ '\'' :: rest) = t ++ removeQuotes .none rest := by
    induction t with
    | nil =>
      rfl
    | cons c t ih =>
      rw [mem_cons, not_or] at h
      rw [cons_append, removeQuotes_single_plain (Ne.symm h.1), ih h.2, cons_append]
  have hopen : '\'' :: t ++ ['\''] ++ rest = '\'' :: (t ++ '\'' :: rest) := by simp
  rw [hopen, removeQuotes, hclose]

theorem Bare.length_removeQuotes (h : Bare t) :
    (removeQuotes .none t).length ≤ t.length ∧
      ((removeQuotes .none t).length = t.length → '\\' ∉ t) := by
  induction h with
  | nil => exact ⟨le_rfl, by simp⟩
  | escaped c _ ih =>
    rw [removeQuotes]
    constructor
    · split <;> grind
    · split <;> grind
  | plain hb hs hd _ ih =>
    rw [removeQuotes_plain hb hs hd]
    grind

theorem Bare.removeQuotes_eq (h : Bare t) (hnone : '\\' ∉ t) : removeQuotes .none t = t := by
  induction h with
  | nil => rfl
  | escaped c _ _ => simp at hnone
  | plain hb hs hd _ ih =>
    rw [mem_cons, not_or] at hnone
    rw [removeQuotes_plain hb hs hd, ih hnone.2]

def Escapes (t : Text) : Prop := ∃ c, isEscapable c = true ∧ ['\\', c] <:+: t

theorem escapes_cons (h : Escapes t) (c : Char) : Escapes (c :: t) := by
  obtain ⟨e, he, hinfix⟩ := h
  exact ⟨e, he, hinfix.trans (suffix_cons c t).isInfix⟩

theorem Quoted.length_removeQuotes (h : Quoted t) :
    (removeQuotes .double t).length ≤ t.length ∧
      (Escapes t → (removeQuotes .double t).length < t.length) := by
  induction h with
  | nil =>
    refine ⟨le_rfl, ?_⟩
    rintro ⟨c, -, hinfix⟩
    simp at hinfix
  | @escaped c rest _ ih =>
    rw [removeQuotes]
    constructor
    · split
      · grind
      · split <;> grind
    · intro hescapes
      split
      · grind
      · split
        · grind
        · rename_i hc hescape
          -- the escape is further on
          obtain ⟨e, he, hinfix⟩ := hescapes
          rw [infix_cons_iff, infix_cons_iff] at hinfix
          rcases hinfix with hpre | hpre | hinfix
          · have := (cons_prefix_cons.1 (cons_prefix_cons.1 hpre).2).1
            rw [← this] at hescape
            exact absurd he hescape
          · have := (cons_prefix_cons.1 hpre).1
            rw [← this] at hescape
            exact absurd rfl hescape
          · have := ih.2 ⟨e, he, hinfix⟩
            grind
  | @plain c rest hb hd _ ih =>
    rw [removeQuotes_double_plain hb hd]
    refine ⟨by grind, ?_⟩
    rintro ⟨e, he, hinfix⟩
    rcases infix_cons_iff.1 hinfix with hpre | hinfix
    · exact absurd (cons_prefix_cons.1 hpre).1.symm hb
    · have := ih.2 ⟨e, he, hinfix⟩
      grind

theorem Quoted.removeQuotes_eq (h : Quoted t) (hnone : ¬ Escapes t) :
    removeQuotes .double t = t := by
  induction h with
  | nil => rfl
  | @escaped c rest _ ih =>
    have hc : isEscapable c ≠ true := fun hc => hnone ⟨c, hc, ⟨[], rest, rfl⟩⟩
    have hbreak : c ≠ '\n' := by
      rintro rfl
      exact hc rfl
    rw [removeQuotes, if_neg hbreak, if_neg hc, ih]
    exact fun h => hnone (escapes_cons (escapes_cons h _) _)
  | plain hb hd _ ih =>
    rw [removeQuotes_double_plain hb hd, ih]
    exact fun h => hnone (escapes_cons h _)

end Removal

end Shell
