import OmniDoer.Library.PyJson

/-! Hexadecimal digests of encoded text. -/

namespace Py

def hexByte (b : UInt8) : List Char := [hexDigit (b.toNat / 16), hexDigit (b.toNat % 16)]

/-- `bytes.hex()`. -/
def hexBytes (bytes : ByteArray) : String := String.ofList (bytes.data.toList.flatMap hexByte)

theorem hexDigit_inj : ∀ m < 16, ∀ n < 16, hexDigit m = hexDigit n → m = n := by
  decide

theorem hexByte_inj {a b : UInt8} (h : hexByte a = hexByte b) : a = b := by
  simp only [hexByte, List.cons.injEq, and_true] at h
  have ha := a.toNat_lt
  have hb := b.toNat_lt
  have hhigh := hexDigit_inj _ (by omega) _ (by omega) h.1
  have hlow := hexDigit_inj _ (by omega) _ (by omega) h.2
  apply UInt8.toNat_inj.1
  omega

theorem hexBytes_injective : Function.Injective hexBytes := by
  intro a b h
  have hchars := String.ofList_inj.1 h
  apply ByteArray.ext
  apply Array.toList_inj.1
  generalize a.data.toList = xs at hchars
  generalize b.data.toList = ys at hchars
  induction xs generalizing ys with
  | nil =>
    cases ys with
    | nil => rfl
    | cons y ys => simp [hexByte] at hchars
  | cons x xs ih =>
    cases ys with
    | nil => simp [hexByte] at hchars
    | cons y ys =>
      obtain ⟨hhead, htail⟩ := List.append_inj hchars rfl
      rw [hexByte_inj hhead, ih ys htail]

/-- `hash(text.encode()).hexdigest()`. -/
def hexDigest (hash : ByteArray → ByteArray) (text : String) : String :=
  hexBytes (hash text.toByteArray)

theorem hexDigest_injective {hash : ByteArray → ByteArray} (h : Function.Injective hash) :
    Function.Injective (hexDigest hash) := by
  intro s t hst
  exact String.toByteArray_inj.1 (h (hexBytes_injective hst))

end Py
