/-
Module: BuildImpact.Snapshot.Id
Layer: Snapshots
Purpose: Units named by texts and by integers of a width, as snapshots write them.
Imports: BuildImpact.Json.Expect
Trusted boundary: none
Main exports: SnapshotId, IntegerWidth
Open obligations: none
-/
import BuildImpact.Json.Expect

namespace BuildImpact

/-- Units that a snapshot can name: once as the key of a source, and once as
the target of an edge. -/
class SnapshotId (N : Type) where
  /-- Read a key behind its opening quote, up to and with the closing one. -/
  readKey : List UInt8 → Json.Reading N
  /-- Read the target of an edge. -/
  readTarget : List UInt8 → Json.Reading N
  /-- A key is not empty: its closing quote at least is read. -/
  length_of_readKey : ∀ {bytes rest : List UInt8} {unit : N},
    readKey bytes = .ok (unit, rest) → rest.length < bytes.length
  /-- A target is not empty. -/
  length_of_readTarget : ∀ {bytes rest : List UInt8} {unit : N},
    readTarget bytes = .ok (unit, rest) → rest.length < bytes.length

/-- Texts are written as strings in both places. -/
instance : SnapshotId String where
  readKey := Json.readString
  readTarget := Json.readText
  length_of_readKey := Json.length_of_readString
  length_of_readTarget := Json.length_of_readText

/-- The integers of one width. -/
class IntegerWidth (N : Type) where
  /-- The name of the width. -/
  width : String
  /-- The integer of this width with a value, if it is in range. -/
  ofInt? : Int → Option N
  /-- The value of an integer of this width. -/
  toInt : N → Int
  /-- Every value is in range. -/
  ofInt?_toInt : ∀ number, ofInt? (toInt number) = some number
  /-- Only the integer itself has its value. -/
  toInt_of_ofInt? : ∀ {value number}, ofInt? value = some number → toInt number = value

namespace IntegerWidth

/-- Read a key that holds an integer, behind its opening quote.  A key that
begins with neither a digit nor a minus sign is refused before it is read. -/
def readKey {N : Type} [IntegerWidth N] (bytes : List UInt8) : Json.Reading N :=
  match bytes with
  | [] => Json.malformed .keyNotNumeric [] .read
  | first :: _ =>
    if Json.isDigit first || first == 0x2d then
      match Json.readInteger (width N) ofInt? bytes with
      | .error failure => .error failure
      | .ok (_, []) => Json.malformed .quoteExpected [] .read
      | .ok (number, quote :: rest) =>
        if quote == 0x22 then .ok (number, rest)
        else Json.malformed .quoteExpected (quote :: rest) .offending
    else Json.malformed .keyNotNumeric bytes .glimpsed

theorem length_of_readKey {N : Type} [IntegerWidth N] {bytes rest : List UInt8} {number : N}
    (taken : readKey bytes = .ok (number, rest)) : rest.length < bytes.length := by
  unfold readKey at taken
  split at taken
  · cases taken
  · split at taken
    · split at taken
      · cases taken
      · cases taken
      · rename_i quote after read
        have := Json.length_of_readInteger read
        split at taken
        · cases taken
          simp only [List.length_cons] at this ⊢
          omega
        · cases taken
    · cases taken

end IntegerWidth

/-- Integers are written between quotes as a key, and plainly as a target. -/
instance {N : Type} [IntegerWidth N] : SnapshotId N where
  readKey := IntegerWidth.readKey
  readTarget := Json.readInteger (IntegerWidth.width N) IntegerWidth.ofInt?
  length_of_readKey := IntegerWidth.length_of_readKey
  length_of_readTarget := Json.length_of_readInteger

instance : IntegerWidth UInt8 where
  width := "u8"
  ofInt? value := if 0 ≤ value ∧ value < 256 then some (UInt8.ofNat value.toNat) else none
  toInt number := number.toNat
  ofInt?_toInt number := by
    have := number.toNat_lt
    rw [if_pos (by omega)]
    simp
  toInt_of_ofInt? := by
    intro value number taken
    split at taken
    · rename_i inRange
      cases taken
      rw [UInt8.toNat_ofNat']
      omega
    · cases taken

instance : IntegerWidth UInt32 where
  width := "u32"
  ofInt? value := if 0 ≤ value ∧ value < 4294967296 then some (UInt32.ofNat value.toNat) else none
  toInt number := number.toNat
  ofInt?_toInt number := by
    have := number.toNat_lt
    rw [if_pos (by omega)]
    simp
  toInt_of_ofInt? := by
    intro value number taken
    split at taken
    · rename_i inRange
      cases taken
      rw [UInt32.toNat_ofNat']
      omega
    · cases taken

instance : IntegerWidth Int64 where
  width := "i64"
  ofInt? value :=
    if -9223372036854775808 ≤ value ∧ value < 9223372036854775808 then some (Int64.ofInt value)
    else none
  toInt number := number.toInt
  ofInt?_toInt number := by
    have lower := number.le_toInt
    have upper := number.toInt_lt
    rw [if_pos ⟨lower, upper⟩]
    simp
  toInt_of_ofInt? := by
    intro value number taken
    split at taken
    · rename_i inRange
      cases taken
      exact Int64.toInt_ofInt_of_le inRange.1 inRange.2
    · cases taken

end BuildImpact
