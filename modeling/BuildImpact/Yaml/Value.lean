/-
Module: BuildImpact.Yaml.Value
Layer: YAML
Purpose: The values that scalars stand for, and how values are worded.
Imports: BuildImpact.Decimal.Shortest, BuildImpact.Text.Quoted, BuildImpact.Yaml.Document
Trusted boundary: none
Main exports: Yaml.isNull, Yaml.boolean?, Yaml.natural?, Yaml.integer?, Yaml.float?, Yaml.Value,
  Yaml.Value.ofText, Yaml.CoreTag, Yaml.Value.ofScalar, Yaml.Value.message
Open obligations: none
-/
import BuildImpact.Decimal.Shortest
import BuildImpact.Text.Quoted
import BuildImpact.Yaml.Document

namespace BuildImpact.Yaml

/-! ### Words -/

/-- Whether a text is one of the words for nothing. -/
def isNullWord (text : String) : Bool :=
  text == "~" || text == "null" || text == "Null" || text == "NULL"

/-- Whether a plain scalar without a tag is nothing: it is empty, or a word for
nothing. -/
def isNull (text : String) : Bool := text == "" || isNullWord text

/-- The truth value that a text spells. -/
def boolean? (text : String) : Option Bool :=
  if text == "true" || text == "True" || text == "TRUE" then some true
  else if text == "false" || text == "False" || text == "FALSE" then some false
  else none

/-! ### Integers -/

/-- The number that digits of the given base write; there is at least one. -/
def number? (base : Nat) (digits : List Char) : Option Nat :=
  if digits.isEmpty then none
  else
    digits.foldl (fun number digit => do
      let value ← hexValue? digit
      if value < base then return (← number) * base + value else none) (some 0)

/-- Digits with a zero in front that is not the only one.  They write no
number. -/
def hasIdleZero : List Char → Bool
  | '0' :: digit :: digits => (digit :: digits).all Char.isDigit
  | _ => false

/-- The number that a text without a sign writes: in decimal digits, or in
another base that its first two characters name. -/
def magnitude? (text : List Char) : Option Nat :=
  match text with
  | '0' :: 'x' :: digits => number? 16 digits
  | '0' :: 'o' :: digits => number? 8 digits
  | '0' :: 'b' :: digits => number? 2 digits
  | _ => if hasIdleZero text then none else number? 10 text

/-- The number that a text writes, a plus sign in front allowed. -/
def natural? (text : List Char) : Option Nat :=
  match text with
  | '+' :: digits => magnitude? digits
  | _ => magnitude? text

/-- The integer that a text writes.  It has at most 128 bits. -/
def integer? (text : List Char) : Option Int :=
  match text with
  | '-' :: digits =>
    match magnitude? digits with
    | none => none
    | some number => if number ≤ Nat.pow 2 127 then some (-Int.ofNat number) else none
  | _ =>
    match natural? text with
    | none => none
    | some number => if number < Nat.pow 2 128 then some (Int.ofNat number) else none

/-! ### Floats -/

/-- The float that is nearest to `significand * 10 ^ exponent`, if it is finite. -/
def nearestFloat (significand : Nat) (exponent : Int) : Option Float :=
  let size := exponent + Int.ofNat (Nat.toDigits 10 significand).length
  if significand = 0 || size < -330 then some 0.0
  else if 310 < size then none
  else
    let value : Float := OfScientific.ofScientific significand (exponent < 0) exponent.natAbs
    if value.isInf then none else some value

/-- The exponent behind a significand; nothing is zero. -/
def exponent? (text : List Char) : Option Int :=
  match text with
  | [] => some 0
  | mark :: digits =>
    if mark == 'e' || mark == 'E' then
      match digits with
      | '-' :: digits => (number? 10 digits).map fun number => -Int.ofNat number
      | '+' :: digits => (number? 10 digits).map Int.ofNat
      | _ => (number? 10 digits).map Int.ofNat
    else none

/-- The float that a text without a sign writes.  There is a digit on at least
one side of the point. -/
def decimal? (text : List Char) : Option Float :=
  let whole := text.takeWhile Char.isDigit
  let rest := text.dropWhile Char.isDigit
  let (fraction, rest) := match rest with
    | '.' :: rest => (rest.takeWhile Char.isDigit, rest.dropWhile Char.isDigit)
    | _ => ([], rest)
  match number? 10 (whole ++ fraction), exponent? rest with
  | some significand, some exponent =>
    nearestFloat significand (exponent - Int.ofNat fraction.length)
  | _, _ => none

/-- The float that a text writes. -/
def float? (text : String) : Option Float :=
  let digits := text.toList
  if text == ".nan" || text == ".NaN" || text == ".NAN" then some (0.0 / 0.0)
  else
    let (isNegative, digits) := match digits with
      | '-' :: digits => (true, digits)
      | '+' :: digits => (false, digits)
      | _ => (false, digits)
    let word := String.ofList digits
    let magnitude :=
      if word == ".inf" || word == ".Inf" || word == ".INF" then some (1.0 / 0.0)
      else decimal? digits
    magnitude.map fun value => if isNegative then -value else value

/-! ### Values -/

/-- What a scalar stands for. -/
inductive Value where
  | null
  | boolean (value : Bool)
  | integer (value : Int)
  | float (value : Float)
  | text (value : String)
deriving Repr, Inhabited

/-- The value of a plain scalar without a tag.  What is nothing else is text. -/
def Value.ofText (text : String) : Value :=
  if isNull text then .null
  else
    match boolean? text with
    | some value => .boolean value
    | none =>
      match integer? text.toList with
      | some value => .integer value
      | none =>
        let unsigned := match text.toList with
          | '-' :: digits => digits
          | '+' :: digits => digits
          | digits => digits
        if hasIdleZero unsigned then .text text
        else
          match float? text with
          | some value => .float value
          | none => .text text

/-- The tags with a meaning of their own. -/
inductive CoreTag where
  | boolean
  | integer
  | float
  | null
deriving Repr, DecidableEq, Inhabited

namespace CoreTag

/-- A tag in full. -/
def name : CoreTag → String
  | .boolean => "tag:yaml.org,2002:bool"
  | .integer => "tag:yaml.org,2002:int"
  | .float => "tag:yaml.org,2002:float"
  | .null => "tag:yaml.org,2002:null"

def ofName? (name : String) : Option CoreTag :=
  [boolean, integer, float, null].find? (·.name == name)

/-- What a text stands for under a tag, if it fits. -/
def value? (tag : CoreTag) (text : String) : Option Value :=
  match tag with
  | .boolean => (boolean? text).map .boolean
  | .integer => (integer? text.toList).map .integer
  | .float => (float? text).map .float
  | .null => if isNullWord text then some .null else none

end CoreTag

/-- The value of a scalar.  A quoted scalar is text, and so is one with a tag
that has no meaning here; a local tag changes nothing.  A text that does not fit
its tag has no value. -/
def Value.ofScalar (text : String) (style : Style) (tag : Option String) :
    Except CoreTag Value :=
  let untagged := if style == .plain then Value.ofText text else .text text
  match tag with
  | none => .ok untagged
  | some name =>
    match CoreTag.ofName? name with
    | some tag =>
      match tag.value? text with
      | some value => .ok value
      | none => .error tag
    | none => .ok (if name.toList.head? == some '!' then untagged else .text text)

/-- Floats are written positionally. -/
def floatFormat : Decimal.Format where
  positional _ := true
  exponentPlus := false

/-- The wording of a value; an integer of more than 64 bits is named by its
width. -/
def Value.message : Value → String
  | .null => "unit value"
  | .boolean value => "boolean `" ++ (if value then "true" else "false") ++ "`"
  | .integer value =>
    "integer `" ++ Decimal.integer value ++ "`" ++
      if Int.ofNat UInt64.size ≤ value then " as u128"
      else if value < Int64.minValue.toInt then " as i128" else ""
  | .float value => "floating point `" ++ Decimal.float floatFormat value ++ "`"
  | .text value => "string " ++ Quoted.encode value

end BuildImpact.Yaml
