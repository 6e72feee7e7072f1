import OmniDoer.Library.PyNumber
import Mathlib.Data.List.Sort
import Mathlib.Data.String.Basic

/-! JSON values as `json.loads` returns them, the conversions Python applies to them,
and `json.dumps` with `sort_keys=True` and the separators `(",", ":")`. -/

namespace Py

inductive Json where
  | null
  | bool (b : Bool)
  | int (i : ℤ)
  | float (x : Double)
  | str (s : String)
  | arr (items : List Json)
  | obj (members : List (String × Json))

/-- A dictionary with string keys in insertion order. -/
abbrev Dict := List (String × Json)

namespace Dict

/-- `d.get(key)`. -/
def get? (d : Dict) (key : String) : Option Json := d.lookup key

/-- `d[key] = value`. -/
def set (d : Dict) (key : String) (value : Json) : Dict :=
  match d with
  | [] => [(key, value)]
  | (k, v) :: rest => if k = key then (k, value) :: rest else (k, v) :: Dict.set rest key value

end Dict

/-- What the interpreter answers beyond the fixed cases: the shortest decimal text of
a finite float, the text of a list or dictionary, and the two checks of `urllib` that
consult `ipaddress` and the NFKC tables. -/
structure Interpreter extends UnicodeData where
  floatRepr : ℚ → String
  reprContainer : Json → String
  bracketedHostOk : String → Bool
  nfkcOk : String → Bool

/-- An interpreter without letters beyond ASCII and without checks of its own. -/
def Interpreter.ascii : Interpreter where
  toUnicodeData := UnicodeData.ascii
  floatRepr := fun q => toString q.num
  reprContainer := fun _ => "..."
  bracketedHostOk := fun _ => true
  nfkcOk := fun _ => true

namespace Json

/-- The truth value of an object. -/
def truthy : Json → Bool
  | .null => false
  | .bool b => b
  | .int i => i != 0
  | .float (.fin q) => q != 0
  | .float _ => true
  | .str s => s != ""
  | .arr items => !items.isEmpty
  | .obj members => !members.isEmpty

/-- `value == s` against a string. -/
def eqStr (value : Option Json) (s : String) : Bool :=
  match value with
  | some (.str t) => t == s
  | _ => false

theorem eqStr_iff (value : Option Json) (s : String) :
    eqStr value s = true ↔ value = some (.str s) := by
  cases value with
  | none => simp [eqStr]
  | some v => cases v <;> simp [eqStr]

def doubleRepr (py : Interpreter) : Double → String
  | .nan => "nan"
  | .inf true => "-inf"
  | .inf false => "inf"
  | .fin q => py.floatRepr q

/-- `str(value)`. -/
def toStr (py : Interpreter) : Json → String
  | .null => "None"
  | .bool true => "True"
  | .bool false => "False"
  | .int i => toString i
  | .float x => doubleRepr py x
  | .str s => s
  | v => py.reprContainer v

/-- `float(value)`. -/
def toFloat : Json → Except Error Double
  | .bool b => .ok (.fin (if b then 1 else 0))
  | .int i =>
    match Double.ofRat i with
    | .fin q => .ok (.fin q)
    | _ => .error ⟨.overflowError, "int too large to convert to float"⟩
  | .float x => .ok x
  | .str s =>
    match floatOfString s with
    | some x => .ok x
    | none => .error ⟨.valueError, "could not convert string to float"⟩
  | _ => .error ⟨.typeError, "float() argument must be a string or a real number"⟩

/-- `int(value)`; a float is truncated towards zero. -/
def toInt : Json → Except Error ℤ
  | .bool b => .ok (if b then 1 else 0)
  | .int i => .ok i
  | .float (.fin q) => .ok (if 0 ≤ q then ⌊q⌋ else -⌊-q⌋)
  | .float .nan => .error ⟨.valueError, "cannot convert float NaN to integer"⟩
  | .float (.inf _) => .error ⟨.overflowError, "cannot convert float infinity to integer"⟩
  | .str s =>
    match intOfString s with
    | some i => .ok i
    | none => .error ⟨.valueError, "invalid literal for int() with base 10"⟩
  | _ => .error ⟨.typeError, "int() argument must be a string or a real number"⟩

end Json

def hexDigit (n : ℕ) : Char := ("0123456789abcdef".toList).getD n '0'

/-- The escape of a code unit as four hexadecimal digits. -/
def unicodeEscape (n : ℕ) : List Char :=
  ['\\', 'u', hexDigit (n / 4096 % 16), hexDigit (n / 256 % 16), hexDigit (n / 16 % 16),
    hexDigit (n % 16)]

/-- The JSON spelling of one character; `ascii` is `ensure_ascii`. -/
def escapeChar (ascii : Bool) (c : Char) : List Char :=
  if c = '"' then ['\\', '"']
  else if c = '\\' then ['\\', '\\']
  else if c = '\n' then ['\\', 'n']
  else if c = '\r' then ['\\', 'r']
  else if c = '\t' then ['\\', 't']
  else if c.toNat = 8 then ['\\', 'b']
  else if c.toNat = 12 then ['\\', 'f']
  else if c.toNat < 32 then unicodeEscape c.toNat
  else if ascii ∧ 127 ≤ c.toNat then
    if c.toNat < 0x10000 then unicodeEscape c.toNat
    else unicodeEscape (0xD800 + (c.toNat - 0x10000) / 1024) ++
      unicodeEscape (0xDC00 + (c.toNat - 0x10000) % 1024)
  else [c]

def quote (ascii : Bool) (s : String) : List Char :=
  '"' :: (s.toList.flatMap (escapeChar ascii) ++ ['"'])

def numberRepr (py : Interpreter) : Double → String
  | .nan => "NaN"
  | .inf true => "-Infinity"
  | .inf false => "Infinity"
  | .fin q => py.floatRepr q

/-- The members of an object in the order of their keys. -/
def sortKeys {α : Type*} (members : List (String × α)) : List (String × α) :=
  members.insertionSort fun a b => a.1 ≤ b.1

/-- Items separated by commas and closed by `close`. -/
def joinItems (close : Char) : List (List Char) → List Char
  | [] => [close]
  | text :: rest => text ++ rest.flatMap (fun t => ',' :: t) ++ [close]

def memberText (ascii : Bool) (m : String × List Char) : List Char :=
  quote ascii m.1 ++ ':' :: m.2

mutual

def Json.dumpsChars (py : Interpreter) (ascii : Bool) : Json → List Char
  | .null => "null".toList
  | .bool true => "true".toList
  | .bool false => "false".toList
  | .int i => (toString i).toList
  | .float x => (numberRepr py x).toList
  | .str s => quote ascii s
  | .arr items => '[' :: joinItems ']' (itemTexts py ascii items)
  | .obj members =>
    '\x7b' :: joinItems '\x7d' ((sortKeys (memberTexts py ascii members)).map (memberText ascii))

def itemTexts (py : Interpreter) (ascii : Bool) : List Json → List (List Char)
  | [] => []
  | v :: rest => v.dumpsChars py ascii :: itemTexts py ascii rest

def memberTexts (py : Interpreter) (ascii : Bool) : List (String × Json) → List (String × List Char)
  | [] => []
  | (k, v) :: rest => (k, v.dumpsChars py ascii) :: memberTexts py ascii rest

end

/-- `json.dumps(value, sort_keys=True, separators=(",", ":"), ensure_ascii=ascii)`. -/
def Json.dumps (py : Interpreter) (ascii : Bool) (v : Json) : String :=
  String.ofList (v.dumpsChars py ascii)

variable (py : Interpreter)

variable (ascii : Bool)

theorem itemTexts_eq (items : List Json) :
    itemTexts py ascii items = items.map (Json.dumpsChars py ascii) := by
  induction items with
  | nil => rfl
  | cons v rest ih => rw [itemTexts, ih, List.map_cons]

theorem memberTexts_eq (members : List (String × Json)) :
    memberTexts py ascii members = members.map fun m => (m.1, m.2.dumpsChars py ascii) := by
  induction members with
  | nil => rfl
  | cons m rest ih => rw [memberTexts, ih, List.map_cons]

theorem sortKeys_map {α β : Type*} (f : α → β) (members : List (String × α)) :
    sortKeys (members.map fun m => (m.1, f m.2)) = (sortKeys members).map fun m =>
      (m.1, f m.2) := by
  symm
  apply List.map_insertionSort
  intro a _ b _
  rfl

theorem sortKeys_perm {α : Type*} (members : List (String × α)) : (sortKeys members).Perm members :=
  List.perm_insertionSort _ _

theorem dumpsChars_obj (members : List (String × Json)) :
    (Json.obj members).dumpsChars py ascii =
      '\x7b' :: joinItems '\x7d'
        ((sortKeys members).map fun m => memberText ascii (m.1, m.2.dumpsChars py ascii)) := by
  rw [Json.dumpsChars, memberTexts_eq, sortKeys_map, List.map_map]
  rfl

theorem dumpsChars_arr (items : List Json) :
    (Json.arr items).dumpsChars py ascii =
      '[' :: joinItems ']' (items.map (Json.dumpsChars py ascii)) := by
  rw [Json.dumpsChars, itemTexts_eq]

end Py
