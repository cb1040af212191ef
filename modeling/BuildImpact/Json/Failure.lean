/-
Module: BuildImpact.Json.Failure
Layer: JSON
Purpose: What can go wrong when JSON text is read, where, and how it is worded.
Imports: BuildImpact.Decimal.Shortest, BuildImpact.Text.Quoted
Trusted boundary: none
Main exports: Json.Malformed, Json.Found, Json.Expected, Json.Mismatch, Json.Cause,
  Json.Failure, Json.Position, Json.Source, Json.Error
Open obligations: none
-/
import BuildImpact.Decimal.Shortest
import BuildImpact.Text.Quoted

namespace BuildImpact.Json

/-! ### Causes -/

/-- Ways in which a text is not JSON. -/
inductive Malformed where
  | endInValue
  | endInList
  | endInObject
  | endInString
  | valueExpected
  | colonExpected
  | listEndExpected
  | objectEndExpected
  | quoteExpected
  | literalExpected
  | keyNotString
  | keyNotNumeric
  | trailingComma
  | trailingCharacters
  | invalidNumber
  | numberOutOfRange
  | invalidEscape
  | surrogateEscapeExpected
  | loneSurrogate
  | invalidCodePoint
  | controlCharacter
deriving Repr, DecidableEq, Inhabited

/-- The wording of each fault of the text. -/
def Malformed.message : Malformed → String
  | .endInValue => "EOF while parsing a value"
  | .endInList => "EOF while parsing a list"
  | .endInObject => "EOF while parsing an object"
  | .endInString => "EOF while parsing a string"
  | .valueExpected => "expected value"
  | .colonExpected => "expected `:`"
  | .listEndExpected => "expected `,` or `]`"
  | .objectEndExpected => "expected `,` or `\x7d`"
  | .quoteExpected => "expected `\"`"
  | .literalExpected => "expected ident"
  | .keyNotString => "key must be a string"
  | .keyNotNumeric => "invalid value: expected key to be a number in quotes"
  | .trailingComma => "trailing comma"
  | .trailingCharacters => "trailing characters"
  | .invalidNumber => "invalid number"
  | .numberOutOfRange => "number out of range"
  | .invalidEscape => "invalid escape"
  | .surrogateEscapeExpected => "unexpected end of hex escape"
  | .loneSurrogate => "lone leading surrogate in hex escape"
  | .invalidCodePoint => "invalid unicode code point"
  | .controlCharacter => "control character (\\u0000-\\u001F) found while parsing a string"

/-- What stood where something else was expected. -/
inductive Found where
  | null
  | boolean (value : Bool)
  | integer (value : Int)
  | float (value : Float)
  | string (value : String)
  | sequence
  | map
deriving Repr, Inhabited

/-- A float in an error text: positional from five zeros behind the point up to
sixteen digits before it, and always with a digit behind the point there. -/
def floatFormat : Decimal.Format where
  positional exponent := -5 ≤ exponent && exponent ≤ 15
  exponentPlus := true

def Found.message : Found → String
  | .null => "null"
  | .boolean value => "boolean `" ++ (if value then "true" else "false") ++ "`"
  | .integer value => "integer `" ++ Decimal.integer value ++ "`"
  | .float value => "floating point `" ++ Decimal.float floatFormat value ++ "`"
  | .string value => "string " ++ Quoted.encode value
  | .sequence => "sequence"
  | .map => "map"

inductive Expected where
  | map
  | sequence
  | edge
  | string
  | unit
  /-- An integer of the named width. -/
  | integer (width : String)
deriving Repr, DecidableEq, Inhabited

def Expected.message : Expected → String
  | .map => "a map"
  | .sequence => "a sequence"
  | .edge => "struct RawEdge"
  | .string => "a string"
  | .unit => "unit"
  | .integer width => width

/-- Ways in which JSON has the wrong shape. -/
inductive Mismatch where
  | wrongType (found : Found) (expected : Expected)
  | outOfRange (value : Int) (expected : Expected)
  | missingField (name : String)
  | duplicateField (name : String)
  /-- A list stands for an edge but ends after `length` items. -/
  | shortEdge (length : Nat)
  | unknownKind (name : String)
deriving Repr, Inhabited

/-- The wording of each fault of the shape. -/
def Mismatch.message : Mismatch → String
  | .wrongType found expected =>
    "invalid type: " ++ found.message ++ ", expected " ++ expected.message
  | .outOfRange value expected =>
    "invalid value: " ++ (Found.integer value).message ++ ", expected " ++ expected.message
  | .missingField name => "missing field `" ++ name ++ "`"
  | .duplicateField name => "duplicate field `" ++ name ++ "`"
  | .shortEdge length =>
    "invalid length " ++ Decimal.natural length ++ ", expected struct RawEdge with 2 elements"
  | .unknownKind name =>
    "unknown variant `" ++ name ++ "`, expected one of `compile`, `export`, `runtime`"

/-- Why a text was refused. -/
inductive Cause where
  | malformed (fault : Malformed)
  | mismatch (fault : Mismatch)
deriving Repr, Inhabited

/-- The wording of a cause, without its place. -/
def Cause.message : Cause → String
  | .malformed fault => fault.message
  | .mismatch fault => fault.message

/-- Whether the text is JSON up to the fault and only its shape is wrong. -/
def Cause.isMismatch : Cause → Bool
  | .malformed _ => false
  | .mismatch _ => true

/-! ### Places -/

/-- Where a text comes from.  A stream hands out its bytes one at a time, and a
byte that was looked at is counted as read. -/
inductive Source where
  | text
  | stream
deriving Repr, DecidableEq, Inhabited

/-- How far the reader had come when it failed. -/
inductive Sight where
  /-- Nothing beyond the bytes read. -/
  | read
  /-- The next byte is the offending one. -/
  | offending
  /-- The next byte was looked at, and is not at fault. -/
  | glimpsed
deriving Repr, DecidableEq, Inhabited

/-- Whether the byte after those read counts in the place of a failure. -/
def Sight.countsNext : Sight → Source → Bool
  | .read, _ => false
  | .offending, _ => true
  | .glimpsed, source => source == .stream

/-- A failed reading: the cause, the bytes not read, and the sight on them. -/
structure Failure where
  cause : Cause
  rest : List UInt8
  sight : Sight
deriving Repr, Inhabited

/-- A reading consumes bytes from the front and gives a value with the rest. -/
abbrev Reading (α : Type) := Except Failure (α × List UInt8)

/-- Fail because the text is not JSON. -/
def malformed {α : Type} (fault : Malformed) (rest : List UInt8) (sight : Sight) :
    Except Failure α :=
  .error ⟨.malformed fault, rest, sight⟩

/-- Fail because the shape is wrong. -/
def mismatch {α : Type} (fault : Mismatch) (rest : List UInt8) (sight : Sight) :
    Except Failure α :=
  .error ⟨.mismatch fault, rest, sight⟩

/-- A place in a text: lines count from one, columns are bytes since the last
line feed. -/
structure Position where
  line : Nat
  column : Nat
deriving Repr, DecidableEq, Inhabited

def Position.next (position : Position) (byte : UInt8) : Position :=
  if byte == 0x0a then ⟨position.line + 1, 0⟩ else ⟨position.line, position.column + 1⟩

/-- The place behind the given bytes. -/
def Position.behind (bytes : List UInt8) : Position :=
  bytes.foldl Position.next ⟨1, 0⟩

/-- The number of bytes of `input` up to the place of a failure. -/
def Failure.offset (failure : Failure) (source : Source) (input : List UInt8) : Nat :=
  input.length - failure.rest.length + if failure.sight.countsNext source then 1 else 0

/-- Why and where a text was refused. -/
structure Error where
  cause : Cause
  position : Position
deriving Repr, Inhabited

/-- A failure as an error about the whole input. -/
def Failure.locate (failure : Failure) (source : Source) (input : List UInt8) : Error :=
  ⟨failure.cause, Position.behind (input.take (failure.offset source input))⟩

/-- The wording of an error with its place. -/
def Error.message (error : Error) : String :=
  error.cause.message ++ " at line " ++ Decimal.natural error.position.line ++
    " column " ++ Decimal.natural error.position.column

end BuildImpact.Json
