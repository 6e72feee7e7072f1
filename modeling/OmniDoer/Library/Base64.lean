import OmniDoer.Library.PyText

/-! The URL-safe Base64 of Python. The decoder reads both alphabets, skips every other
ASCII character, stops at a complete padding and ignores the bits that a last digit has
to spare, so a byte string has many spellings; the encoder writes one of them. -/

namespace Py.Base64

open List

/-- The value of a digit of the standard alphabet or of the URL-safe one. -/
def sextet (c : Char) : Option ℕ :=
  if 'A' ≤ c ∧ c ≤ 'Z' then some (c.toNat - 65)
  else if 'a' ≤ c ∧ c ≤ 'z' then some (c.toNat - 71)
  else if '0' ≤ c ∧ c ≤ '9' then some (c.toNat + 4)
  else if c = '+' ∨ c = '-' then some 62
  else if c = '/' ∨ c = '_' then some 63
  else none

/-- The URL-safe digit of a value. -/
def digit (n : ℕ) : Char :=
  if n < 26 then Char.ofNat (n + 65)
  else if n < 52 then Char.ofNat (n + 71)
  else if n < 62 then Char.ofNat (n - 4)
  else if n = 62 then '-'
  else '_'

theorem sextet_digit : ∀ n < 64, sextet (digit n) = some n := by
  decide

theorem digit_ne_pad : ∀ n < 64, digit n ≠ '=' := by
  decide

theorem toNat_digit_lt : ∀ n < 64, (digit n).toNat < 128 := by
  decide

/-- The state of `binascii.a2b_base64`: the position in a group of four digits, the bits
of the last digit that are not written yet, the padding seen since, and the output. -/
structure Decoder where
  position : ℕ
  left : ℕ
  pads : ℕ
  output : List UInt8

def Decoder.start : Decoder := ⟨0, 0, 0, []⟩

def Decoder.push (d : Decoder) (n : ℕ) : Decoder :=
  match d.position with
  | 0 => ⟨1, n, 0, d.output⟩
  | 1 => ⟨2, n % 16, 0, d.output ++ [UInt8.ofNat (d.left * 4 + n / 16)]⟩
  | 2 => ⟨3, n % 4, 0, d.output ++ [UInt8.ofNat (d.left * 16 + n / 4)]⟩
  | _ => ⟨0, 0, 0, d.output ++ [UInt8.ofNat (d.left * 64 + n)]⟩

def binasciiError (message : String) : Error := ⟨.other "binascii.Error", message⟩

def decodeFrom : List Char → Decoder → Except Error (List UInt8)
  | [], d =>
    if d.position = 0 then .ok d.output
    else if d.position = 1 then
      .error (binasciiError ("Invalid base64-encoded string: number of data characters (" ++
        toString (d.output.length / 3 * 4 + 1) ++ ") cannot be 1 more than a multiple of 4"))
    else .error (binasciiError "Incorrect padding")
  | c :: rest, d =>
    if c = '=' then
      -- a pad counts only in the second half of a group
      if 2 ≤ d.position then
        if 4 ≤ d.position + (d.pads + 1) then .ok d.output
        else decodeFrom rest { d with pads := d.pads + 1 }
      else decodeFrom rest d
    else
      match sextet c with
      | none => decodeFrom rest d
      | some n => decodeFrom rest (d.push n)

/-- `base64.urlsafe_b64decode` of a text. -/
def urlsafeB64decode (text : String) : Except Error (List UInt8) :=
  if text.toList.all fun c => decide (c.toNat < 128) then decodeFrom text.toList .start
  else .error ⟨.valueError, "string argument should contain only ASCII characters"⟩

/-- The digits of a byte string, without padding. -/
def digits : List UInt8 → List Char
  | [] => []
  | [a] => [digit (a.toNat / 4), digit (a.toNat % 4 * 16)]
  | [a, b] =>
    [digit (a.toNat / 4), digit (a.toNat % 4 * 16 + b.toNat / 16), digit (b.toNat % 16 * 4)]
  | a :: b :: c :: rest =>
    digit (a.toNat / 4) :: digit (a.toNat % 4 * 16 + b.toNat / 16) ::
      digit (b.toNat % 16 * 4 + c.toNat / 64) :: digit (c.toNat % 64) :: digits rest

/-- How many characters a text is short of a multiple of four: `-len(text) % 4`. -/
def missing (length : ℕ) : ℕ := (4 - length % 4) % 4

theorem decodeFrom_digit {n : ℕ} (h : n < 64) (rest : List Char) (d : Decoder) :
    decodeFrom (digit n :: rest) d = decodeFrom rest (d.push n) := by
  rw [decodeFrom, if_neg (digit_ne_pad n h), sextet_digit n h]

theorem ofNat_eq {a : UInt8} {n : ℕ} (h : n = a.toNat) : UInt8.ofNat n = a := by
  rw [h, UInt8.ofNat_toNat]

/-- Decoding reads back what was encoded, once the padding is filled up. -/
theorem decodeFrom_digits (bytes output : List UInt8) :
    decodeFrom (digits bytes ++ List.replicate (missing (digits bytes).length) '=')
        ⟨0, 0, 0, output⟩ =
      .ok (output ++ bytes) := by
  induction bytes using digits.induct generalizing output with
  | case1 => simp [digits, missing, decodeFrom]
  | case2 a =>
    have ha := a.toNat_lt
    have hbyte : UInt8.ofNat (a.toNat / 4 * 4 + a.toNat % 4 * 16 / 16) = a := ofNat_eq (by omega)
    simp only [digits, cons_append]
    rw [decodeFrom_digit (by omega), decodeFrom_digit (by omega)]
    simp only [Decoder.push, hbyte]
    simp [missing, decodeFrom]
  | case3 a b =>
    have ha := a.toNat_lt
    have hb := b.toNat_lt
    have hfirst : UInt8.ofNat (a.toNat / 4 * 4 + (a.toNat % 4 * 16 + b.toNat / 16) / 16) = a :=
      ofNat_eq (by omega)
    have hsecond : UInt8.ofNat
        ((a.toNat % 4 * 16 + b.toNat / 16) % 16 * 16 + b.toNat % 16 * 4 / 4) = b :=
      ofNat_eq (by omega)
    simp only [digits, cons_append]
    rw [decodeFrom_digit (by omega), decodeFrom_digit (by omega), decodeFrom_digit (by omega)]
    simp only [Decoder.push, hfirst, hsecond]
    simp [missing, decodeFrom]
  | case4 a b c rest ih =>
    have ha := a.toNat_lt
    have hb := b.toNat_lt
    have hc := c.toNat_lt
    have hfirst : UInt8.ofNat (a.toNat / 4 * 4 + (a.toNat % 4 * 16 + b.toNat / 16) / 16) = a :=
      ofNat_eq (by omega)
    have hsecond : UInt8.ofNat ((a.toNat % 4 * 16 + b.toNat / 16) % 16 * 16 +
        (b.toNat % 16 * 4 + c.toNat / 64) / 4) = b := ofNat_eq (by omega)
    have hthird : UInt8.ofNat ((b.toNat % 16 * 4 + c.toNat / 64) % 4 * 64 + c.toNat % 64) = c :=
      ofNat_eq (by omega)
    have hmissing : missing (digits (a :: b :: c :: rest)).length =
        missing (digits rest).length := by
      simp only [digits, missing, length_cons]
      omega
    rw [hmissing]
    simp only [digits, cons_append]
    rw [decodeFrom_digit (by omega), decodeFrom_digit (by omega), decodeFrom_digit (by omega),
      decodeFrom_digit (by omega)]
    simp only [Decoder.push, hfirst, hsecond, hthird]
    rw [ih]
    simp

theorem toNat_lt_of_mem_digits {bytes : List UInt8} {c : Char} (h : c ∈ digits bytes) :
    c.toNat < 128 := by
  induction bytes using digits.induct with
  | case1 => cases h
  | case2 a =>
    have ha := a.toNat_lt
    simp only [digits, mem_cons, not_mem_nil, or_false] at h
    rcases h with rfl | rfl
    all_goals exact toNat_digit_lt _ (by omega)
  | case3 a b =>
    have ha := a.toNat_lt
    have hb := b.toNat_lt
    simp only [digits, mem_cons, not_mem_nil, or_false] at h
    rcases h with rfl | rfl | rfl
    all_goals exact toNat_digit_lt _ (by omega)
  | case4 a b c rest ih =>
    have ha := a.toNat_lt
    have hb := b.toNat_lt
    have hc := c.toNat_lt
    simp only [digits, mem_cons] at h
    rcases h with rfl | rfl | rfl | rfl | h
    case inr.inr.inr.inr => exact ih h
    all_goals exact toNat_digit_lt _ (by omega)

theorem urlsafeB64decode_digits (bytes : List UInt8) :
    urlsafeB64decode
        (String.ofList (digits bytes) ++
          String.ofList (List.replicate (missing (String.ofList (digits bytes)).length) '=')) =
      .ok bytes := by
  have htext : (String.ofList (digits bytes) ++ String.ofList
      (replicate (missing (String.ofList (digits bytes)).length) '=')).toList =
      digits bytes ++ replicate (missing (digits bytes).length) '=' := by
    simp
  have hascii : (digits bytes ++ replicate (missing (digits bytes).length) '=').all
      (fun c => decide (c.toNat < 128)) = true := by
    simp only [all_append, Bool.and_eq_true, all_eq_true, decide_eq_true_eq]
    refine ⟨fun c hc => toNat_lt_of_mem_digits hc, fun c hc => ?_⟩
    rw [eq_of_mem_replicate hc]
    decide
  rw [urlsafeB64decode, htext, if_pos hascii]
  exact decodeFrom_digits bytes []

end Py.Base64
