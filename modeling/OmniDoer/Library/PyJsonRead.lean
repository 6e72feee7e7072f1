import OmniDoer.Library.PyDict
import OmniDoer.Library.PyJsonInjective

/-! `json.loads`, and that it reads back whatever `json.dumps` with `sort_keys=True`
writes, with either pair of separators. -/

namespace Py

open List Json

/-- What follows an item: the closing bracket, or a comma, the gap and the next item. -/
def closeItems (gap : List Char) (close : Char) : List (List Char) → List Char
  | [] => [close]
  | text :: rest => ',' :: (gap ++ (text ++ closeItems gap close rest))

def joinWith (gap : List Char) (close : Char) : List (List Char) → List Char
  | [] => [close]
  | text :: rest => text ++ closeItems gap close rest

def memberWith (ascii : Bool) (gap : List Char) (m : String × List Char) : List Char :=
  quote ascii m.1 ++ ':' :: (gap ++ m.2)

mutual

def Json.printChars (py : Interpreter) (ascii : Bool) (gap : List Char) : Json → List Char
  | .arr items => '[' :: joinWith gap ']' (printItems py ascii gap items)
  | .obj members =>
    '\x7b' :: joinWith gap '\x7d'
      ((sortKeys (printMembers py ascii gap members)).map (memberWith ascii gap))
  | v => v.dumpsChars py ascii

def printItems (py : Interpreter) (ascii : Bool) (gap : List Char) : List Json → List (List Char)
  | [] => []
  | v :: rest => v.printChars py ascii gap :: printItems py ascii gap rest

def printMembers (py : Interpreter) (ascii : Bool) (gap : List Char) :
    List (String × Json) → List (String × List Char)
  | [] => []
  | (k, v) :: rest => (k, v.printChars py ascii gap) :: printMembers py ascii gap rest

end

/-- `json.dumps(value, sort_keys=True)`, with the separators `", "` and `": "`. -/
def Json.dumpsSpaced (py : Interpreter) (v : Json) : String :=
  String.ofList (v.printChars py true [' '])

variable (py : Interpreter)

variable (gap : List Char)

variable (ascii : Bool)

variable (items : List Json)

theorem printItems_eq :
    printItems py ascii gap items = items.map (Json.printChars py ascii gap) := by
  induction items with
  | nil => rfl
  | cons v rest ih => rw [printItems, ih, map_cons]

variable (members : List (String × Json))

theorem printMembers_eq :
    printMembers py ascii gap members = members.map fun m =>
      (m.1, m.2.printChars py ascii gap) := by
  induction members with
  | nil => rfl
  | cons m rest ih => rw [printMembers, ih, map_cons]

theorem printChars_arr :
    (Json.arr items).printChars py ascii gap =
      '[' :: joinWith gap ']' (items.map (Json.printChars py ascii gap)) := by
  rw [printChars, printItems_eq]

theorem printChars_obj :
    (Json.obj members).printChars py ascii gap =
      '\x7b' :: joinWith gap '\x7d'
        ((sortKeys members).map fun m =>
          memberWith ascii gap (m.1, m.2.printChars py ascii gap)) := by
  rw [printChars, printMembers_eq, sortKeys_map, map_map]
  rfl

theorem closeItems_nil_gap (close : Char) (texts : List (List Char)) :
    closeItems [] close texts = texts.flatMap (fun t => ',' :: t) ++ [close] := by
  induction texts with
  | nil => rfl
  | cons text rest ih => simp [closeItems, ih]

theorem joinWith_nil_gap (close : Char) (texts : List (List Char)) :
    joinWith [] close texts = joinItems close texts := by
  cases texts with
  | nil => rfl
  | cons text rest => simp [joinWith, joinItems, closeItems_nil_gap]

def literals : List (List Char × Json) :=
  [("null".toList, .null), ("true".toList, .bool true), ("false".toList, .bool false),
    ("NaN".toList, .float .nan), ("Infinity".toList, .float (.inf false)),
    ("-Infinity".toList, .float (.inf true))]

def readLiteral (cs : List Char) : List (List Char × Json) → Option (Json × List Char)
  | [] => none
  | (text, v) :: rest =>
    if text.isPrefixOf cs then some (v, cs.drop text.length) else readLiteral cs rest

def readScalar (cs : List Char) : Option (Json × List Char) :=
  (readLiteral cs literals).or (readNumber cs)

/-- `dict(pairs)`: a repeated key keeps its first place and its last value. -/
def Dict.ofPairs (pairs : List (String × Json)) : Dict :=
  pairs.foldl (fun d m => Dict.set d m.1 m.2) []

mutual

/-- One value at the start of the text. The fuel bounds the nesting and the number of
items; the length of the text is enough. -/
def readValue : ℕ → List Char → Option (Json × List Char)
  | 0, _ => none
  | fuel + 1, cs =>
    match cs with
    | '"' :: cs => (readString cs).map fun p => (.str p.1, p.2)
    | '[' :: cs =>
      match skipSpace cs with
      | ']' :: rest => some (.arr [], rest)
      | cs => (readItems fuel cs).map fun p => (.arr p.1, p.2)
    | '\x7b' :: cs =>
      match skipSpace cs with
      | '\x7d' :: rest => some (.obj [], rest)
      | cs => (readMembers fuel cs).map fun p => (.obj (Dict.ofPairs p.1), p.2)
    | cs => readScalar cs

def readItems : ℕ → List Char → Option (List Json × List Char)
  | 0, _ => none
  | fuel + 1, cs =>
    match readValue fuel cs with
    | none => none
    | some (v, cs) =>
      match skipSpace cs with
      | ',' :: cs => (readItems fuel (skipSpace cs)).map fun p => (v :: p.1, p.2)
      | ']' :: rest => some ([v], rest)
      | _ => none

def readMembers : ℕ → List Char → Option (List (String × Json) × List Char)
  | 0, _ => none
  | fuel + 1, cs =>
    match cs with
    | '"' :: cs =>
      match readString cs with
      | none => none
      | some (key, cs) =>
        match skipSpace cs with
        | ':' :: cs =>
          match readValue fuel (skipSpace cs) with
          | none => none
          | some (v, cs) =>
            match skipSpace cs with
            | ',' :: cs =>
              (readMembers fuel (skipSpace cs)).map fun p => ((key, v) :: p.1, p.2)
            | '\x7d' :: rest => some ([(key, v)], rest)
            | _ => none
        | _ => none
    | _ => none

end

/-- `json.loads(text)`, or nothing where Python raises `JSONDecodeError`. -/
def Json.loads (text : String) : Option Json :=
  match readValue (text.toList.length + 1) (skipSpace text.toList) with
  | some (v, rest) => if skipSpace rest = [] then some v else none
  | none => none

/-- A value of the interpreter: the keys of its dictionaries are distinct, and the text
of each of its floats is a number that reads back as that float. -/
inductive Json.Readable (py : Interpreter) : Json → Prop where
  | null : Readable py .null
  | bool (b : Bool) : Readable py (.bool b)
  | int (i : ℤ) : Readable py (.int i)
  | nan : Readable py (.float .nan)
  | inf (negative : Bool) : Readable py (.float (.inf negative))
  | float {q : ℚ} (h : readNumber (py.floatRepr q).toList = some (.float (.fin q), [])) :
      Readable py (.float (.fin q))
  | str (s : String) : Readable py (.str s)
  | arr {items : List Json} (h : ∀ v ∈ items, Readable py v) : Readable py (.arr items)
  | obj {members : List (String × Json)} (hkeys : (members.map Prod.fst).Nodup)
      (h : ∀ m ∈ members, Readable py m.2) : Readable py (.obj members)

mutual

/-- The value with the members of every object in the order of their keys. -/
def Json.sorted : Json → Json
  | .arr items => .arr (sortedItems items)
  | .obj members => .obj (sortKeys (sortedMembers members))
  | v => v

def sortedItems : List Json → List Json
  | [] => []
  | v :: rest => v.sorted :: sortedItems rest

def sortedMembers : List (String × Json) → List (String × Json)
  | [] => []
  | (k, v) :: rest => (k, v.sorted) :: sortedMembers rest

end

theorem sorted_arr : (Json.arr items).sorted = .arr (items.map Json.sorted) := by
  have h : sortedItems items = items.map sorted := by
    induction items with
    | nil => rfl
    | cons v rest ih => rw [sortedItems, ih, map_cons]
  rw [sorted, h]

theorem sorted_obj :
    (Json.obj members).sorted = .obj ((sortKeys members).map fun m => (m.1, m.2.sorted)) := by
  have h : sortedMembers members = members.map fun m => (m.1, m.2.sorted) := by
    induction members with
    | nil => rfl
    | cons m rest ih => rw [sortedMembers, ih, map_cons]
  rw [sorted, h, sortKeys_map]

theorem skipSpace_cons {c : Char} (hc : isJsonSpace c = false) (cs : List Char) :
    skipSpace (c :: cs) = c :: cs := by
  rw [skipSpace]
  simp [hc]

theorem skipSpace_append {gap : List Char} (hgap : ∀ c ∈ gap, isJsonSpace c = true)
    (cs : List Char) : skipSpace (gap ++ cs) = skipSpace cs :=
  dropWhile_append_of_pos hgap

variable {cs : List Char} {p : Json × List Char}

section

variable (h : readNumber cs = some p)
include h

theorem readNumber_head : ∃ c t, cs = c :: t ∧ (c = '-' ∨ c.isDigit = true) := by
  cases cs with
  | nil => cases h
  | cons c t =>
    refine ⟨c, t, rfl, ?_⟩
    by_contra hc
    rw [not_or] at hc
    have hzero : c ≠ '0' := by
      rintro rfl
      exact hc.2 rfl
    simp [readNumber, wholePart, wholeDigits, hc, hzero] at h

theorem readLiteral_of_readNumber : readLiteral cs literals = none := by
  have hnone : ∀ l ∈ literals, l.1.isPrefixOf cs = false := by
    intro l hl
    by_contra hpre
    rw [Bool.not_eq_false, List.isPrefixOf_iff_prefix] at hpre
    obtain ⟨t, rfl⟩ := hpre
    simp only [literals, mem_cons, not_mem_nil, or_false] at hl
    rcases hl with rfl | rfl | rfl | rfl | rfl | rfl <;>
      simp [readNumber, wholePart, wholeDigits] at h
  have hall : ∀ ls : List (List Char × Json), (∀ l ∈ ls, l.1.isPrefixOf cs = false) →
      readLiteral cs ls = none := by
    intro ls hls
    induction ls with
    | nil => rfl
    | cons l ls ih =>
      rw [readLiteral, hls l mem_cons_self]
      exact ih fun l hl => hls l (mem_cons_of_mem _ hl)
  exact hall literals hnone

theorem readScalar_of_readNumber : readScalar cs = some p := by
  rw [readScalar, readLiteral_of_readNumber h, Option.none_or, h]

theorem readValue_of_readNumber (fuel : ℕ) : readValue (fuel + 1) cs = some p := by
  obtain ⟨c, t, rfl, hc⟩ := readNumber_head h
  rw [readValue]
  · exact readScalar_of_readNumber h
  -- neither a quote nor an opening bracket starts a number
  all_goals
    rintro cs hcs
    obtain rfl := (cons.inj hcs).1
    simp at hc

end

def Opens (cs : List Char) : Prop :=
  ∃ c t, cs = c :: t ∧ isJsonSpace c = false ∧ c ≠ ']' ∧ c ≠ '\x7d'

theorem Opens.append (h : Opens cs) (rest : List Char) : Opens (cs ++ rest) := by
  obtain ⟨c, t, rfl, hc⟩ := h
  exact ⟨c, t ++ rest, rfl, hc⟩

theorem Opens.skipSpace_eq (h : Opens cs) : skipSpace cs = cs := by
  obtain ⟨c, t, rfl, hspace, -⟩ := h
  exact skipSpace_cons hspace t

theorem opens_of_readNumber (h : readNumber cs = some p) : Opens cs := by
  obtain ⟨c, t, rfl, hc⟩ := readNumber_head h
  refine ⟨c, t, rfl, ?_⟩
  rcases hc with rfl | hc
  · decide
  · refine ⟨?_, ?_, ?_⟩
    · by_contra hspace
      simp only [isJsonSpace, Bool.not_eq_false, Bool.or_eq_true, beq_iff_eq] at hspace
      rcases hspace with ((rfl | rfl) | rfl) | rfl <;> cases hc
    · rintro rfl
      cases hc
    · rintro rfl
      cases hc

variable {py : Interpreter} {ascii : Bool} {gap : List Char}

variable {v : Json}

theorem Json.Readable.opens (h : v.Readable py) : Opens (v.printChars py ascii gap) := by
  cases h with
  | null | str => exact ⟨_, _, rfl, by decide⟩
  | bool b => cases b <;> exact ⟨_, _, rfl, by decide⟩
  | int i => exact opens_of_readNumber (readNumber_int i)
  | nan => exact ⟨'N', ['a', 'N'], by simp [printChars, dumpsChars, numberRepr], by decide⟩
  | inf negative =>
    refine ⟨if negative then '-' else 'I', if negative then "Infinity".toList else "nfinity".toList,
      ?_, ?_⟩
    · cases negative <;> simp [printChars, dumpsChars, numberRepr]
    · cases negative <;> decide
  | float h => exact opens_of_readNumber h
  | arr h => exact ⟨_, _, printChars_arr .., by decide⟩
  | obj hkeys h => exact ⟨_, _, printChars_obj .., by decide⟩

theorem ends_cons {c : Char} (hc : c = ',' ∨ c = ']' ∨ c = '\x7d') (cs : List Char) :
    Ends (c :: cs) := by
  intro d hd
  obtain rfl := Option.some.inj hd
  rcases hc with rfl | rfl | rfl <;> decide

theorem readValue_arr (h : Opens cs) (fuel : ℕ) :
    readValue (fuel + 1) ('[' :: cs) = (readItems fuel cs).map fun p => (.arr p.1, p.2) := by
  have hskip := h.skipSpace_eq
  obtain ⟨c, t, rfl, -, hc, -⟩ := h
  simp only [readValue, hskip]
  split
  · rename_i heq
    exact absurd (List.cons.inj heq).1 hc
  · rfl

theorem readValue_obj (h : Opens cs) (fuel : ℕ) :
    readValue (fuel + 1) ('\x7b' :: cs) =
      (readMembers fuel cs).map fun p => (.obj (Dict.ofPairs p.1), p.2) := by
  have hskip := h.skipSpace_eq
  obtain ⟨c, t, rfl, -, -, hc⟩ := h
  simp only [readValue, hskip]
  split
  · rename_i heq
    exact absurd (cons.inj heq).1 hc
  · rfl

/-- `text` reads as `value` whatever follows it, with as much fuel as it is long. -/
def ReadsAs (text : List Char) (value : Json) : Prop :=
  ∀ fuel rest, text.length ≤ fuel → Ends rest → readValue fuel (text ++ rest) = some (value, rest)

theorem closeItems_cons (close : Char) (text : List Char) (texts : List (List Char)) :
    closeItems gap close (text :: texts) = ',' :: (gap ++ joinWith gap close (text :: texts)) := rfl

variable {text : List Char}

theorem Opens.join (h : Opens text) (close : Char)
    (texts : List (List Char)) (rest : List Char) :
    Opens (joinWith gap close (text :: texts) ++ rest) :=
  (h.append _).append rest

theorem skipSpace_join (hgap : ∀ c ∈ gap, isJsonSpace c = true)
    (hopens : Opens text) (close : Char) (texts : List (List Char)) (rest : List Char) :
    skipSpace (gap ++ (joinWith gap close (text :: texts) ++ rest)) =
      joinWith gap close (text :: texts) ++ rest := by
  rw [skipSpace_append hgap]
  exact (hopens.join close texts rest).skipSpace_eq

theorem read_join {α β : Type*} {read : ℕ → List Char → Option (List β × List Char)}
    (hgap : ∀ c ∈ gap, isJsonSpace c = true) {close : Char} {t : α → List Char} {g : α → β}
    (x : α) (xs : List α) (hopens : ∀ y ∈ x :: xs, Opens (t y))
    (hlast : ∀ y ∈ x :: xs, ∀ fuel rest, (t y).length ≤ fuel →
      read (fuel + 1) (t y ++ close :: rest) = some ([g y], rest))
    (hnext : ∀ y ∈ x :: xs, ∀ fuel cs, (t y).length ≤ fuel →
      read (fuel + 1) (t y ++ ',' :: cs) =
        (read fuel (skipSpace cs)).map fun p => (g y :: p.1, p.2))
    {fuel : ℕ} {rest : List Char}
    (hfuel : (joinWith gap close ((x :: xs).map t)).length ≤ fuel) :
    read fuel (joinWith gap close ((x :: xs).map t) ++ rest) = some ((x :: xs).map g, rest) := by
  induction xs generalizing x fuel with
  | nil =>
    simp only [map_cons, map_nil, joinWith, closeItems, length_append, length_singleton] at hfuel
    obtain ⟨m, rfl⟩ : ∃ m, fuel = m + 1 := ⟨fuel - 1, by omega⟩
    simp [joinWith, closeItems, hlast x mem_cons_self m rest (by omega)]
  | cons y ys ih =>
    simp only [map_cons, joinWith, length_append, closeItems_cons, length_cons] at hfuel
    obtain ⟨m, rfl⟩ : ∃ m, fuel = m + 1 := ⟨fuel - 1, by omega⟩
    have hrest : read m (joinWith gap close ((y :: ys).map t) ++ rest) =
        some ((y :: ys).map g, rest) :=
      ih y (fun z hz => hopens z (mem_cons_of_mem x hz))
        (fun z hz => hlast z (mem_cons_of_mem x hz))
        (fun z hz => hnext z (mem_cons_of_mem x hz))
        (by simp only [map_cons, joinWith, length_append]; omega)
    have hskip := skipSpace_join hgap (hopens y (by simp)) close (ys.map t) rest
    rw [← map_cons] at hskip
    rw [map_cons, map_cons, joinWith, closeItems_cons, ← map_cons,
      append_assoc, cons_append, append_assoc,
      hnext x mem_cons_self m _ (by omega), hskip, hrest]
    rfl

theorem readItems_join (hgap : ∀ c ∈ gap, isJsonSpace c = true) {α : Type*} {f : α → List Char}
    {g : α → Json} (x : α) (xs : List α) (hopens : ∀ y ∈ x :: xs, Opens (f y))
    (h : ∀ y ∈ x :: xs, ReadsAs (f y) (g y)) {fuel : ℕ} {rest : List Char}
    (hfuel : (joinWith gap ']' ((x :: xs).map f)).length ≤ fuel) :
    readItems fuel (joinWith gap ']' ((x :: xs).map f) ++ rest) = some ((x :: xs).map g, rest) := by
  refine read_join hgap x xs hopens (fun y hy m rest hm => ?_) (fun y hy m cs hm => ?_) hfuel
  · rw [readItems, h y hy m (']' :: rest) hm (ends_cons (by simp) rest)]
    simp only [skipSpace_cons (by decide : isJsonSpace ']' = false)]
  · rw [readItems, h y hy m (',' :: cs) hm (ends_cons (by simp) cs)]
    simp only [skipSpace_cons (by decide : isJsonSpace ',' = false)]

variable (ascii) in
theorem readMembers_member (hgap : ∀ c ∈ gap, isJsonSpace c = true) {text : List Char} {v : Json}
    (hopens : Opens text) (h : ReadsAs text v) (k : String) (fuel : ℕ) (rest : List Char)
    (hfuel : text.length ≤ fuel) (hrest : Ends rest) :
    readMembers (fuel + 1) (memberWith ascii gap (k, text) ++ rest) =
      match skipSpace rest with
      | ',' :: cs => (readMembers fuel (skipSpace cs)).map fun p => ((k, v) :: p.1, p.2)
      | '\x7d' :: rest => some ([(k, v)], rest)
      | _ => none := by
  have hstring := readString_escaped ascii k (':' :: (gap ++ (text ++ rest)))
  have hskip : skipSpace (gap ++ (text ++ rest)) = text ++ rest := by
    rw [skipSpace_append hgap]
    exact (hopens.append rest).skipSpace_eq
  simp only [memberWith, quote, cons_append, append_assoc,
    nil_append, readMembers, hstring, skipSpace_cons (by decide : isJsonSpace ':' = false),
    hskip, h fuel rest hfuel hrest]

theorem length_lt_memberWith (k : String) (text : List Char) :
    text.length < (memberWith ascii gap (k, text)).length := by
  simp only [memberWith, length_append, length_cons]
  omega

theorem opens_memberWith (m : String × List Char) : Opens (memberWith ascii gap m) :=
  ⟨'"', _, rfl, by decide⟩

theorem readMembers_join (hgap : ∀ c ∈ gap, isJsonSpace c = true) {f : Json → List Char}
    {g : Json → Json} {t : String × Json → List Char}
    (ht : ∀ m, t m = memberWith ascii gap (m.1, f m.2)) (x : String × Json)
    (xs : List (String × Json)) (hopens : ∀ m ∈ x :: xs, Opens (f m.2))
    (h : ∀ m ∈ x :: xs, ReadsAs (f m.2) (g m.2)) {fuel : ℕ} {rest : List Char}
    (hfuel : (joinWith gap '\x7d' ((x :: xs).map t)).length ≤ fuel) :
    readMembers fuel (joinWith gap '\x7d' ((x :: xs).map t) ++ rest) =
      some ((x :: xs).map fun m => (m.1, g m.2), rest) := by
  have hread : ∀ y ∈ x :: xs, ∀ m rest, (t y).length ≤ m → Ends rest → _ :=
    fun y hy m rest hm => readMembers_member ascii hgap (hopens y hy) (h y hy) y.1 m rest
      ((length_lt_memberWith y.1 (f y.2)).le.trans (ht y ▸ hm))
  refine read_join hgap x xs (fun y _ => ht y ▸ opens_memberWith (y.1, f y.2))
    (fun y hy m rest hm => ?_) (fun y hy m cs hm => ?_) hfuel
  · rw [ht, hread y hy m ('\x7d' :: rest) hm (ends_cons (by simp) rest)]
    simp only [skipSpace_cons (by decide : isJsonSpace '\x7d' = false)]
  · rw [ht, hread y hy m (',' :: cs) hm (ends_cons (by simp) cs)]
    simp only [skipSpace_cons (by decide : isJsonSpace ',' = false)]

theorem ofPairs_eq_self {pairs : List (String × Json)} (h : (pairs.map Prod.fst).Nodup) :
    Dict.ofPairs pairs = pairs := by
  have hfold : ∀ d : Dict, ((d ++ pairs).map Prod.fst).Nodup →
      pairs.foldl (fun d m => Dict.set d m.1 m.2) d = d ++ pairs := by
    clear h
    induction pairs with
    | nil => simp
    | cons m pairs ih =>
      intro d hd
      have hm : m.1 ∉ d.map Prod.fst := by
        rw [map_append] at hd
        intro hmem
        exact disjoint_of_nodup_append hd hmem mem_cons_self
      rw [foldl_cons, Dict.set_of_notMem hm, ih]
      · simp
      · simpa using hd
  exact hfold [] (by simpa using h)

theorem readsAs_of_readNumber (h : readNumber text = some (v, [])) : ReadsAs text v := by
  intro fuel rest hfuel hrest
  obtain ⟨c, t, rfl, -⟩ := readNumber_head h
  obtain ⟨m, rfl⟩ : ∃ m, fuel = m + 1 := ⟨fuel - 1, by simp at hfuel; omega⟩
  exact readValue_of_readNumber (readNumber_append hrest h) m

theorem readsAs_literal (h : (text, v) ∈ literals) : ReadsAs text v := by
  intro fuel rest hfuel _
  simp only [literals, mem_cons, not_mem_nil, or_false] at h
  obtain ⟨m, rfl⟩ : ∃ m, fuel = m + 1 := by
    refine ⟨fuel - 1, ?_⟩
    rcases h with ⟨rfl, -⟩ | ⟨rfl, -⟩ | ⟨rfl, -⟩ | ⟨rfl, -⟩ | ⟨rfl, -⟩ | ⟨rfl, -⟩ <;>
      simp at hfuel <;> omega
  rcases h with ⟨rfl, rfl⟩ | ⟨rfl, rfl⟩ | ⟨rfl, rfl⟩ | ⟨rfl, rfl⟩ | ⟨rfl, rfl⟩ | ⟨rfl, rfl⟩ <;> rfl

/-- Reading inverts printing, up to the order of the members. -/
theorem Json.Readable.readsAs (hgap : ∀ c ∈ gap, isJsonSpace c = true)
    (h : v.Readable py) : ReadsAs (v.printChars py ascii gap) v.sorted := by
  induction h with
  | null => exact readsAs_literal (by simp [literals, printChars, dumpsChars, sorted])
  | bool b =>
    cases b <;> exact readsAs_literal (by simp [literals, printChars, dumpsChars, sorted])
  | int i => exact readsAs_of_readNumber (readNumber_int i)
  | nan =>
    exact readsAs_literal (by simp [literals, printChars, dumpsChars, numberRepr, sorted])
  | inf negative =>
    cases negative <;> exact readsAs_literal
      (by simp [literals, printChars, dumpsChars, numberRepr, sorted])
  | float h => exact readsAs_of_readNumber h
  | str s =>
    intro fuel rest hfuel _
    obtain ⟨m, rfl⟩ : ∃ m, fuel = m + 1 :=
      ⟨fuel - 1, by simp [printChars, dumpsChars, quote] at hfuel; omega⟩
    simp [printChars, dumpsChars, quote, readValue, readString_escaped, sorted]
  | @arr items hitems ih =>
    intro fuel rest hfuel _
    rw [printChars_arr, length_cons] at hfuel
    obtain ⟨m, rfl⟩ : ∃ m, fuel = m + 1 := ⟨fuel - 1, by omega⟩
    rw [printChars_arr, sorted_arr, cons_append]
    cases items with
    | nil => rfl
    | cons v vs =>
      have hopens : Opens (joinWith gap ']' ((v :: vs).map (printChars py ascii gap)) ++ rest) :=
        (hitems v mem_cons_self).opens.join ']' _ rest
      rw [readValue_arr hopens, readItems_join hgap v vs (fun w hw => (hitems w hw).opens) ih
        (Nat.le_of_succ_le_succ hfuel), Option.map_some]
  | @obj members hkeys hmembers ih =>
    intro fuel rest hfuel _
    rw [printChars_obj, length_cons] at hfuel
    obtain ⟨m, rfl⟩ : ∃ m, fuel = m + 1 := ⟨fuel - 1, by omega⟩
    rw [printChars_obj, sorted_obj, cons_append]
    have hperm := sortKeys_perm members
    have hnodup : (((sortKeys members).map fun m => (m.1, m.2.sorted)).map Prod.fst).Nodup := by
      rw [map_map]
      exact (hperm.map Prod.fst).nodup_iff.2 hkeys
    cases hsort : sortKeys members with
    | nil => rfl
    | cons x xs =>
      rw [hsort] at hfuel hnodup hperm
      have hopens : Opens (joinWith gap '\x7d' ((x :: xs).map fun m =>
          memberWith ascii gap (m.1, m.2.printChars py ascii gap)) ++ rest) :=
        (opens_memberWith _).join '\x7d' _ rest
      rw [readValue_obj hopens,
        readMembers_join hgap (fun _ => rfl) x xs
          (fun m hm => (hmembers m (hperm.mem_iff.1 hm)).opens)
          (fun m hm => ih m (hperm.mem_iff.1 hm)) (by omega),
        Option.map_some, ofPairs_eq_self hnodup]

theorem loads_printChars (hgap : ∀ c ∈ gap, isJsonSpace c = true) (h : v.Readable py) :
    Json.loads (String.ofList (v.printChars py ascii gap)) = some v.sorted := by
  have hread : readValue ((v.printChars py ascii gap).length + 1)
      (v.printChars py ascii gap ++ []) =
      some (v.sorted, []) :=
    h.readsAs hgap _ [] (by omega) (by intro c hc; cases hc)
  rw [append_nil] at hread
  rw [loads, String.toList_ofList, h.opens.skipSpace_eq, hread]
  rfl

theorem Json.Readable.printChars_nil (h : v.Readable py) :
    v.printChars py ascii [] = v.dumpsChars py ascii := by
  induction h with
  | @arr items hitems ih =>
    rw [printChars_arr, dumpsChars_arr, joinWith_nil_gap, map_congr_left ih]
  | @obj members hkeys hmembers ih =>
    have hmem : ∀ m ∈ sortKeys members, memberWith ascii [] (m.1, m.2.printChars py ascii []) =
        memberText ascii (m.1, m.2.dumpsChars py ascii) := by
      intro m hm
      rw [ih m ((sortKeys_perm members).mem_iff.1 hm)]
      rfl
    rw [printChars_obj, dumpsChars_obj, joinWith_nil_gap, map_congr_left hmem]
  | _ => rfl

theorem Json.Readable.loads_dumpsSpaced (h : v.Readable py) :
    Json.loads (v.dumpsSpaced py) = some v.sorted :=
  loads_printChars (by simp [isJsonSpace]) h

theorem Json.Readable.loads_dumps (h : v.Readable py) :
    Json.loads (v.dumps py ascii) = some v.sorted := by
  rw [dumps, ← h.printChars_nil]
  exact loads_printChars (by simp) h

theorem Json.Readable.sorted_eq_of_dumps_eq {v w : Json} (hv : v.Readable py) (hw : w.Readable py)
    (h : v.dumps py ascii = w.dumps py ascii) : v.sorted = w.sorted := by
  have hread : loads (v.dumps py ascii) = some v.sorted := hv.loads_dumps
  rw [h, hw.loads_dumps] at hread
  exact (Option.some.inj hread).symm

theorem Json.Readable.dumps_sorted (h : v.Readable py) :
    v.sorted.dumps py ascii = v.dumps py ascii := by
  rw [dumps]
  congr 1
  induction h with
  | @arr items hitems ih =>
    rw [sorted_arr, dumpsChars_arr, dumpsChars_arr, map_map]
    exact congrArg _ (congrArg _ (map_congr_left ih))
  | @obj members hkeys hmembers ih =>
    have hmem : ∀ m ∈ sortKeys members,
        memberText ascii (m.1, m.2.sorted.dumpsChars py ascii) =
          memberText ascii (m.1, m.2.dumpsChars py ascii) := by
      intro m hm
      rw [ih m ((sortKeys_perm members).mem_iff.1 hm)]
    rw [sorted_obj, dumpsChars_obj, dumpsChars_obj, sortKeys_map,
      sortKeys_eq_self (pairwise_sortKeys members), map_map]
    exact congrArg _ (congrArg _ (map_congr_left hmem))
  | _ => rfl

/-- The members of a dictionary as they are read back. -/
def sortedDict (d : Dict) : Dict := (sortKeys d).map fun m => (m.1, m.2.sorted)

theorem sorted_obj_eq (d : Dict) : (Json.obj d).sorted = .obj (sortedDict d) := sorted_obj d

theorem map_fst_map_sorted (d : Dict) :
    (d.map fun m => (m.1, m.2.sorted)).map Prod.fst = d.map Prod.fst := by
  simp

theorem sortKeys_eq_of_perm {α : Type*} {l l' : List (String × α)} (hkeys : (l.map Prod.fst).Nodup)
    (h : l.Perm l') : sortKeys l = sortKeys l' := by
  have hperm : (sortKeys l).Perm (sortKeys l') :=
    ((sortKeys_perm l).trans h).trans (sortKeys_perm l').symm
  apply Perm.eq_of_pairwise _ (pairwise_sortKeys l) (pairwise_sortKeys l') hperm
  intro a b ha hb hab hba
  have ha' : a ∈ l := (sortKeys_perm l).mem_iff.1 ha
  have hb' : b ∈ l := h.mem_iff.2 ((sortKeys_perm l').mem_iff.1 hb)
  exact inj_on_of_nodup_map hkeys ha' hb' (le_antisymm hab hba)

theorem sortedDict_perm (d : Dict) : (sortedDict d).Perm (d.map fun m => (m.1, m.2.sorted)) :=
  (sortKeys_perm d).map _

section

variable {d : Dict} (hkeys : (d.map Prod.fst).Nodup)
include hkeys

theorem nodup_keys_sortedDict : ((sortedDict d).map Prod.fst).Nodup := by
  have h := (sortedDict_perm d).map Prod.fst
  rw [map_fst_map_sorted] at h
  exact h.nodup_iff.2 hkeys

theorem get?_sortedDict (k : String) :
    Dict.get? (sortedDict d) k = (Dict.get? d k).map Json.sorted := by
  rw [Dict.get?_perm (nodup_keys_sortedDict hkeys) (sortedDict_perm d)]
  clear hkeys
  induction d with
  | nil => rfl
  | cons m d ih =>
    rw [map_cons, Dict.get?_cons, ih, Dict.get?_cons]
    split <;> rfl

theorem pop_sortedDict (k : String) : Dict.pop (sortedDict d) k = sortedDict (Dict.pop d k) := by
  have hfilter : (sortKeys d).filter (fun m => m.1 != k) = sortKeys (Dict.pop d k) := by
    have hpop : ((Dict.pop d k).map Prod.fst).Nodup := hkeys.sublist (filter_sublist.map _)
    have hperm : ((sortKeys d).filter fun m => m.1 != k).Perm (Dict.pop d k) :=
      (sortKeys_perm d).filter _
    rw [← sortKeys_eq_of_perm ((hperm.map Prod.fst).nodup_iff.2 hpop) hperm]
    exact (sortKeys_eq_self ((pairwise_sortKeys d).sublist filter_sublist)).symm
  simp only [sortedDict, ← hfilter]
  rw [Dict.pop, filter_map]
  rfl

end

end Py
