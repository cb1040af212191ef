/-
Module: BuildImpact.Text.Utf8
Layer: Text
Purpose: Texts as lists of UTF-8 bytes, and the first byte that is not UTF-8.
Imports: none
Trusted boundary: none
Main exports: Utf8.encode, Utf8.decode?, Utf8.decode?_encode,
  Utf8.decode?_eq_some_iff, Utf8.wellFormedLength
Open obligations: none
-/

namespace BuildImpact.Utf8

/-- The UTF-8 bytes of a text. -/
def encode (text : String) : List UInt8 := text.toByteArray.data.toList

/-- The text that has the given bytes, if they are UTF-8. -/
def decode? (bytes : List UInt8) : Option String :=
  String.fromUTF8? ⟨bytes.toArray⟩

/-- Every text is read back from its bytes. -/
@[simp] theorem decode?_encode (text : String) : decode? (encode text) = some text := by
  have valid : text.toByteArray.IsValidUTF8 := text.isValidUTF8
  simp only [decode?, encode, Array.toArray_toList, String.fromUTF8?]
  exact dif_pos valid

/-- Bytes mean the text that they encode, and no other. -/
theorem decode?_eq_some_iff {bytes : List UInt8} {text : String} :
    decode? bytes = some text ↔ bytes = encode text := by
  constructor
  · intro decoded
    rw [decode?, String.fromUTF8?] at decoded
    split at decoded
    · cases decoded
      simp [encode, String.fromUTF8]
    · cases decoded
  · rintro rfl
    exact decode?_encode text

@[simp] theorem encode_append (first second : String) :
    encode (first ++ second) = encode first ++ encode second := by
  simp [encode]

theorem encode_ofList (chars : List Char) :
    encode (String.ofList chars) = chars.flatMap String.utf8EncodeChar := by
  simp [encode, List.utf8Encode]

/-- The number of bytes from `start` on that form whole characters, `start`
itself added. -/
def wellFormedUpTo (bytes : ByteArray) (start : Nat) : Nat :=
  match bytes.utf8DecodeChar? start with
  | none => start
  | some char =>
    if start < bytes.size then wellFormedUpTo bytes (start + char.utf8Size) else start
termination_by bytes.size - start
decreasing_by
  have := char.utf8Size_pos
  omega

/-- The number of bytes in front of the first one that is not UTF-8. -/
def wellFormedLength (bytes : List UInt8) : Nat :=
  wellFormedUpTo ⟨bytes.toArray⟩ 0

end BuildImpact.Utf8
