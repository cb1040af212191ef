/-
Module: BuildImpact.Json.Expect
Layer: JSON
Purpose: Values of an expected type, or what stands in their place; the separators
  of lists and objects.
Imports: BuildImpact.Json.Number, BuildImpact.Json.Text
Trusted boundary: none
Main exports: Json.inPlaceOf, Json.readText, Json.readInteger, Json.readNull,
  Json.nextKey, Json.nextItem, Json.readColon, Json.readEnd
Open obligations: none
-/
import BuildImpact.Json.Number
import BuildImpact.Json.Text

namespace BuildImpact.Json

/-! ### Values of one type -/

/-- The failure when something else stands where `expected` should: it is read
as far as its kind and value need it, unless it is no value at all. -/
def inPlaceOf (expected : Expected) (bytes : List UInt8) : Failure :=
  let wrong (found : Found) (rest : List UInt8) (sight : Sight) : Failure :=
    ⟨.mismatch (.wrongType found expected), rest, sight⟩
  match bytes with
  | [] => ⟨.malformed .valueExpected, [], .read⟩
  | first :: rest =>
    if first == 0x6e then
      match readLiteral nullTail rest with
      | .error failure => failure
      | .ok rest => wrong .null rest .read
    else if first == 0x74 then
      match readLiteral trueTail rest with
      | .error failure => failure
      | .ok rest => wrong (.boolean true) rest .read
    else if first == 0x66 then
      match readLiteral falseTail rest with
      | .error failure => failure
      | .ok rest => wrong (.boolean false) rest .read
    else if first == 0x2d then
      match Number.read true rest with
      | .error failure => failure
      | .ok (number, rest) => wrong number.found rest .glimpsed
    else if isDigit first then
      match Number.read false bytes with
      | .error failure => failure
      | .ok (number, rest) => wrong number.found rest .glimpsed
    else if first == 0x22 then
      match readString rest with
      | .error failure => failure
      | .ok (text, rest) => wrong (.string text) rest .read
    else if first == 0x5b then wrong .sequence bytes .glimpsed
    else if first == 0x7b then wrong .map bytes .glimpsed
    else ⟨.malformed .valueExpected, bytes, .offending⟩

/-- Read a string, blanks before it allowed. -/
def readText (bytes : List UInt8) : Reading String :=
  match skipBlanks bytes with
  | [] => malformed .endInValue [] .read
  | first :: rest =>
    if first == 0x22 then readString rest else .error (inPlaceOf .string (first :: rest))

/-- Read `null`, blanks before it allowed. -/
def readNull (bytes : List UInt8) : Except Failure (List UInt8) :=
  match skipBlanks bytes with
  | [] => malformed .endInValue [] .read
  | first :: rest =>
    if first == 0x6e then readLiteral nullTail rest
    else .error (inPlaceOf .unit (first :: rest))

/-- Read a number, blanks before it allowed, where an integer of the named
width is expected. -/
def readNumber (width : String) (bytes : List UInt8) : Reading Number :=
  match skipBlanks bytes with
  | [] => malformed .endInValue [] .read
  | first :: rest =>
    if first == 0x2d then Number.read true rest
    else if isDigit first then Number.read false (first :: rest)
    else .error (inPlaceOf (.integer width) (first :: rest))

/-- Read an integer that `ofInt?` accepts as one of the named width. -/
def readInteger {N : Type} (width : String) (ofInt? : Int → Option N) (bytes : List UInt8) :
    Reading N :=
  match readNumber width bytes with
  | .error failure => .error failure
  | .ok (.float value, rest) =>
    mismatch (.wrongType (.float value) (.integer width)) rest .glimpsed
  | .ok (.natural value, rest) => fit value rest
  | .ok (.negative value, rest) => fit value rest
where
  /-- The value, if it is in range. -/
  fit (value : Int) (rest : List UInt8) : Reading N :=
    match ofInt? value with
    | some fitting => .ok (fitting, rest)
    | none => mismatch (.outOfRange value (.integer width)) rest .glimpsed

theorem length_of_readText {bytes rest : List UInt8} {text : String}
    (taken : readText bytes = .ok (text, rest)) : rest.length < bytes.length := by
  unfold readText at taken
  have blanks := length_skipBlanks_le bytes
  split at taken
  · cases taken
  · rename_i first after split
    rw [split, List.length_cons] at blanks
    split at taken
    · have := length_of_readString taken
      omega
    · cases taken

theorem length_of_readNumber {width : String} {bytes rest : List UInt8} {number : Number}
    (taken : readNumber width bytes = .ok (number, rest)) : rest.length < bytes.length := by
  unfold readNumber at taken
  have blanks := length_skipBlanks_le bytes
  split at taken
  · cases taken
  · rename_i first after split
    rw [split, List.length_cons] at blanks
    split at taken
    · have := Number.length_of_read taken
      omega
    · split at taken
      · have := Number.length_of_read taken
        simp only [List.length_cons] at this
        omega
      · cases taken

theorem length_of_readInteger {N : Type} {width : String} {ofInt? : Int → Option N}
    {bytes rest : List UInt8} {value : N}
    (taken : readInteger width ofInt? bytes = .ok (value, rest)) :
    rest.length < bytes.length := by
  have fits : ∀ {number : Int} {left : List UInt8},
      readInteger.fit width ofInt? number left = .ok (value, rest) → rest = left := by
    intro number left fitted
    unfold readInteger.fit at fitted
    split at fitted <;> cases fitted
    rfl
  unfold readInteger at taken
  split at taken
  · cases taken
  · cases taken
  · rename_i read
    rw [fits taken]
    exact length_of_readNumber read
  · rename_i read
    rw [fits taken]
    exact length_of_readNumber read

/-! ### Separators -/

/-- What a list or an object goes on with. -/
inductive Next where
  /-- It has been closed. -/
  | closed (rest : List UInt8)
  /-- Another item follows. -/
  | item (rest : List UInt8)
deriving Repr, Inhabited

/-- Go on in an object, up to behind the opening quote of the next key.
`isFirst` says that no entry has been read. -/
def nextKey (isFirst : Bool) (bytes : List UInt8) : Except Failure Next :=
  match skipBlanks bytes with
  | [] => malformed .endInObject [] .read
  | first :: rest =>
    if first == 0x7d then .ok (.closed rest)
    else if isFirst then
      if first == 0x22 then .ok (.item rest)
      else malformed .keyNotString (first :: rest) .offending
    else if first == 0x2c then
      match skipBlanks rest with
      | [] => malformed .endInValue [] .read
      | second :: after =>
        if second == 0x22 then .ok (.item after)
        else if second == 0x7d then malformed .trailingComma (second :: after) .offending
        else malformed .keyNotString (second :: after) .offending
    else malformed .objectEndExpected (first :: rest) .offending

/-- Go on in a list, up to the next item.  `isFirst` says that no item has been
read. -/
def nextItem (isFirst : Bool) (bytes : List UInt8) : Except Failure Next :=
  match skipBlanks bytes with
  | [] => malformed .endInList [] .read
  | first :: rest =>
    if first == 0x5d then .ok (.closed rest)
    else if isFirst then .ok (.item (first :: rest))
    else if first == 0x2c then
      match skipBlanks rest with
      | [] => malformed .endInValue [] .read
      | second :: after =>
        if second == 0x5d then malformed .trailingComma (second :: after) .offending
        else .ok (.item (second :: after))
    else malformed .listEndExpected (first :: rest) .offending

/-- Close a list that can hold no further item. -/
def closeList (bytes : List UInt8) : Except Failure (List UInt8) :=
  match skipBlanks bytes with
  | [] => malformed .endInList [] .read
  | first :: rest =>
    if first == 0x5d then .ok rest
    else if first == 0x2c then
      match skipBlanks rest with
      | [] => malformed .trailingCharacters [] .read
      | second :: after =>
        if second == 0x5d then malformed .trailingComma (second :: after) .offending
        else malformed .trailingCharacters (second :: after) .offending
    else malformed .trailingCharacters (first :: rest) .offending

/-- Take the colon between a key and its value. -/
def readColon (bytes : List UInt8) : Except Failure (List UInt8) :=
  match skipBlanks bytes with
  | [] => malformed .endInObject [] .read
  | first :: rest =>
    if first == 0x3a then .ok rest else malformed .colonExpected (first :: rest) .offending

/-- Only blanks may follow the document. -/
def readEnd (bytes : List UInt8) : Except Failure Unit :=
  match skipBlanks bytes with
  | [] => .ok ()
  | first :: rest => malformed .trailingCharacters (first :: rest) .offending

theorem length_of_nextKey {isFirst : Bool} {bytes rest : List UInt8}
    (taken : nextKey isFirst bytes = .ok (.item rest)) : rest.length < bytes.length := by
  unfold nextKey at taken
  have blanks := length_skipBlanks_le bytes
  split at taken
  · cases taken
  · rename_i first after split
    rw [split, List.length_cons] at blanks
    split at taken
    · cases taken
    · split at taken
      · split at taken
        · cases taken
          omega
        · cases taken
      · split at taken
        · have more := length_skipBlanks_le after
          split at taken
          · cases taken
          · rename_i second left split
            rw [split, List.length_cons] at more
            split at taken
            · cases taken
              omega
            · split at taken <;> cases taken
        · cases taken

theorem length_of_nextKey_closed {isFirst : Bool} {bytes rest : List UInt8}
    (taken : nextKey isFirst bytes = .ok (.closed rest)) : rest.length < bytes.length := by
  unfold nextKey at taken
  have blanks := length_skipBlanks_le bytes
  split at taken
  · cases taken
  · rename_i first after split
    rw [split, List.length_cons] at blanks
    split at taken
    · cases taken
      omega
    · split at taken
      · split at taken <;> cases taken
      · split at taken
        · split at taken
          · cases taken
          · split at taken
            · cases taken
            · split at taken <;> cases taken
        · cases taken

theorem length_of_nextItem {isFirst : Bool} {bytes rest : List UInt8}
    (taken : nextItem isFirst bytes = .ok (.item rest)) : rest.length ≤ bytes.length := by
  unfold nextItem at taken
  have blanks := length_skipBlanks_le bytes
  split at taken
  · cases taken
  · rename_i first after split
    rw [split, List.length_cons] at blanks
    split at taken
    · cases taken
    · split at taken
      · cases taken
        simp only [List.length_cons]
        omega
      · split at taken
        · have more := length_skipBlanks_le after
          split at taken
          · cases taken
          · rename_i second left split
            rw [split, List.length_cons] at more
            split at taken
            · cases taken
            · cases taken
              simp only [List.length_cons]
              omega
        · cases taken

theorem length_of_nextItem_closed {isFirst : Bool} {bytes rest : List UInt8}
    (taken : nextItem isFirst bytes = .ok (.closed rest)) : rest.length < bytes.length := by
  unfold nextItem at taken
  have blanks := length_skipBlanks_le bytes
  split at taken
  · cases taken
  · rename_i first after split
    rw [split, List.length_cons] at blanks
    split at taken
    · cases taken
      omega
    · split at taken
      · cases taken
      · split at taken
        · split at taken
          · cases taken
          · split at taken <;> cases taken
        · cases taken

theorem length_of_closeList {bytes rest : List UInt8}
    (taken : closeList bytes = .ok rest) : rest.length < bytes.length := by
  unfold closeList at taken
  have blanks := length_skipBlanks_le bytes
  split at taken
  · cases taken
  · rename_i first after split
    rw [split, List.length_cons] at blanks
    split at taken
    · cases taken
      omega
    · split at taken
      · split at taken
        · cases taken
        · split at taken <;> cases taken
      · cases taken

theorem length_of_readColon {bytes rest : List UInt8}
    (taken : readColon bytes = .ok rest) : rest.length < bytes.length := by
  unfold readColon at taken
  have blanks := length_skipBlanks_le bytes
  split at taken
  · cases taken
  · rename_i first after split
    rw [split, List.length_cons] at blanks
    split at taken
    · cases taken
      omega
    · cases taken

end BuildImpact.Json
