/-
Module: BuildImpact.Proofs.Json.Grammar
Layer: Proofs
Purpose: JSON as a grammar over bytes, apart from the readers.  Each relation says that
  a text begins with some construct and that `rest` follows it; where the construct has
  a value, the value stands between the two.
Imports: BuildImpact.Json.Skip, BuildImpact.Text.Utf8
Trusted boundary: none
Main exports: Json.Blanks, Json.Token, Json.StringBody, Json.TextToken, Json.Integer,
  Json.Number.Form, Json.Form, Json.Listed
Open obligations: none
-/
import BuildImpact.Json.Skip
import BuildImpact.Text.Utf8

namespace BuildImpact.Json

/-! ### Blanks and tokens -/

/-- Spaces, tabs, line feeds and carriage returns. -/
inductive Blanks : List UInt8 → List UInt8 → Prop where
  | none (rest : List UInt8) : Blanks rest rest
  | more {byte : UInt8} {bytes rest : List UInt8} (blank : byte ∈ [0x20, 0x09, 0x0a, 0x0d])
      (others : Blanks bytes rest) : Blanks (byte :: bytes) rest

/-- A single byte that gives the text its structure.  Blanks may stand before it. -/
def Token (symbol : UInt8) (bytes rest : List UInt8) : Prop :=
  Blanks bytes (symbol :: rest)

/-! ### Strings -/

/-- The letters that stand for one byte behind a backslash, each with its byte: quote,
backslash and slash for themselves, and the letters for backspace, form feed, line feed,
carriage return and tab. -/
def shortEscapes : List (UInt8 × UInt8) :=
  [(0x22, 0x22), (0x5c, 0x5c), (0x2f, 0x2f), (0x62, 0x08), (0x66, 0x0c), (0x6e, 0x0a),
    (0x72, 0x0d), (0x74, 0x09)]

/-- A string behind its opening quote, up to and with the closing one, and the bytes that
it means. -/
inductive StringBody : List UInt8 → List UInt8 → List UInt8 → Prop where
  | close (rest : List UInt8) : StringBody (0x22 :: rest) [] rest
  /-- Every byte but the control characters, quotes and backslashes means itself. -/
  | plain {byte : UInt8} {bytes meant rest : List UInt8} (visible : 0x20 ≤ byte)
      (noQuote : byte ≠ 0x22) (noEscape : byte ≠ 0x5c) (more : StringBody bytes meant rest) :
      StringBody (byte :: bytes) (byte :: meant) rest
  | short {letter byte : UInt8} {bytes meant rest : List UInt8}
      (known : (letter, byte) ∈ shortEscapes) (more : StringBody bytes meant rest) :
      StringBody (0x5c :: letter :: bytes) (byte :: meant) rest
  /-- Four hexadecimal digits mean the character with that number. -/
  | point {a b c d : UInt8} {char : Char} {bytes meant rest : List UInt8}
      (number : hexNumber? a b c d = some char.toNat) (more : StringBody bytes meant rest) :
      StringBody (0x5c :: 0x75 :: a :: b :: c :: d :: bytes)
        (String.utf8EncodeChar char ++ meant) rest
  /-- A character from `0x10000` on is written as a surrogate pair. -/
  | pair {a b c d e f g h : UInt8} {leading trailing : Nat} {char : Char}
      {bytes meant rest : List UInt8} (first : hexNumber? a b c d = some leading)
      (second : hexNumber? e f g h = some trailing)
      (leads : 0xd800 ≤ leading ∧ leading ≤ 0xdbff)
      (trails : 0xdc00 ≤ trailing ∧ trailing ≤ 0xdfff)
      (joined : char.toNat = (leading - 0xd800) * 0x400 + (trailing - 0xdc00) + 0x10000)
      (more : StringBody bytes meant rest) :
      StringBody
        (0x5c :: 0x75 :: a :: b :: c :: d :: 0x5c :: 0x75 :: e :: f :: g :: h :: bytes)
        (String.utf8EncodeChar char ++ meant) rest

/-- A string with the text that it means. -/
def TextToken (bytes : List UInt8) (text : String) (rest : List UInt8) : Prop :=
  ∃ body, Token 0x22 bytes body ∧ StringBody body (Utf8.encode text) rest

/-- A string of which only the form is asked: a number behind `\u` may be any, and the
bytes may mean no text. -/
inductive StringForm : List UInt8 → List UInt8 → Prop where
  | close (rest : List UInt8) : StringForm (0x22 :: rest) rest
  | plain {byte : UInt8} {bytes rest : List UInt8} (visible : 0x20 ≤ byte)
      (noQuote : byte ≠ 0x22) (noEscape : byte ≠ 0x5c) (more : StringForm bytes rest) :
      StringForm (byte :: bytes) rest
  | short {letter byte : UInt8} {bytes rest : List UInt8}
      (known : (letter, byte) ∈ shortEscapes) (more : StringForm bytes rest) :
      StringForm (0x5c :: letter :: bytes) rest
  | point {a b c d : UInt8} {number : Nat} {bytes rest : List UInt8}
      (digits : hexNumber? a b c d = some number) (more : StringForm bytes rest) :
      StringForm (0x5c :: 0x75 :: a :: b :: c :: d :: bytes) rest

/-! ### Numbers -/

/-- At least one decimal digit. -/
structure Digits (digits bytes rest : List UInt8) : Prop where
  split : bytes = digits ++ rest
  some : digits ≠ []
  decimal : ∀ digit ∈ digits, isDigit digit = true

/-- Digits without a zero in front of other digits. -/
structure Whole (digits bytes rest : List UInt8) : Prop extends Digits digits bytes rest where
  zeroAlone : digits.head? = .some 0x30 → digits = [0x30]

/-- The number that decimal digits write. -/
def numeral (digits : List UInt8) : Nat :=
  digits.foldl (fun total digit => total * 10 + digitValue digit) 0

/-- An integer: digits, with a minus sign in front of those of a negative one.  Minus zero
is no integer. -/
inductive Integer : List UInt8 → Int → List UInt8 → Prop where
  | natural {digits bytes rest : List UInt8} (whole : Whole digits bytes rest) :
      Integer bytes (numeral digits) rest
  | negative {digits bytes rest : List UInt8} (whole : Whole digits bytes rest)
      (positive : 0 < numeral digits) : Integer (0x2d :: bytes) (-(numeral digits : Int)) rest

namespace Number

/-- A point with digits behind it, or nothing. -/
inductive Fraction : List UInt8 → List UInt8 → Prop where
  | none (rest : List UInt8) : Fraction rest rest
  | digits {digits bytes rest : List UInt8} (behind : Digits digits bytes rest) :
      Fraction (0x2e :: bytes) rest

/-- The letter of either case with digits behind it, or nothing.  A sign may stand between
them. -/
inductive Exponent : List UInt8 → List UInt8 → Prop where
  | none (rest : List UInt8) : Exponent rest rest
  | unsigned {letter : UInt8} {digits bytes rest : List UInt8} (marks : letter ∈ [0x65, 0x45])
      (behind : Digits digits bytes rest) : Exponent (letter :: bytes) rest
  | signed {letter sign : UInt8} {digits bytes rest : List UInt8} (marks : letter ∈ [0x65, 0x45])
      (signs : sign ∈ [0x2b, 0x2d]) (behind : Digits digits bytes rest) :
      Exponent (letter :: sign :: bytes) rest

/-- A number without a sign. -/
inductive Unsigned : List UInt8 → List UInt8 → Prop where
  | intro {digits bytes middle later rest : List UInt8} (whole : Whole digits bytes middle)
      (fraction : Fraction middle later) (exponent : Exponent later rest) : Unsigned bytes rest

/-- A number of which only the form is asked, so that its size does not matter. -/
inductive Form : List UInt8 → List UInt8 → Prop where
  | positive {bytes rest : List UInt8} (unsigned : Unsigned bytes rest) : Form bytes rest
  | negative {bytes rest : List UInt8} (unsigned : Unsigned bytes rest) :
      Form (0x2d :: bytes) rest

end Number

/-- Whether a number can end here: neither a digit nor a point nor the letter of an
exponent follows. -/
def Ends (rest : List UInt8) : Prop :=
  ∀ byte ∈ rest.head?, isDigit byte = false ∧ byte ∉ [0x2e, 0x65, 0x45]

/-! ### Values -/

/-- The parts of a value. -/
inductive Part where
  | value
  /-- All that stands between brackets, with the closing one. -/
  | inside (bracket : Bracket)
  /-- What follows an item between brackets, with the closing one. -/
  | further (bracket : Bracket)
  /-- A value of a list, or a key of an object with its value. -/
  | item (bracket : Bracket)

def Bracket.opener : Bracket → UInt8
  | .list => 0x5b
  | .object => 0x7b

/-- The letters of `null`, `true` and `false`. -/
def literals : List (List UInt8) :=
  [0x6e :: nullTail, 0x74 :: trueTail, 0x66 :: falseTail]

/-- A value, or a part of one, of which only the form is asked. -/
inductive Form : Part → List UInt8 → List UInt8 → Prop where
  | literal {letters : List UInt8} (rest : List UInt8) (known : letters ∈ literals) :
      Form .value (letters ++ rest) rest
  | number {bytes rest : List UInt8} (number : Number.Form bytes rest) : Form .value bytes rest
  | string {bytes rest : List UInt8} (body : StringForm bytes rest) :
      Form .value (0x22 :: bytes) rest
  | bracketed {bracket : Bracket} {bytes rest : List UInt8}
      (inside : Form (.inside bracket) bytes rest) : Form .value (bracket.opener :: bytes) rest
  | empty {bracket : Bracket} {bytes rest : List UInt8}
      (closed : Token bracket.closer bytes rest) : Form (.inside bracket) bytes rest
  | items {bracket : Bracket} {bytes middle rest : List UInt8}
      (first : Form (.item bracket) bytes middle)
      (others : Form (.further bracket) middle rest) : Form (.inside bracket) bytes rest
  | close {bracket : Bracket} {bytes rest : List UInt8}
      (closed : Token bracket.closer bytes rest) : Form (.further bracket) bytes rest
  | comma {bracket : Bracket} {bytes start middle rest : List UInt8}
      (comma : Token 0x2c bytes start) (next : Form (.item bracket) start middle)
      (others : Form (.further bracket) middle rest) : Form (.further bracket) bytes rest
  | element {bytes start rest : List UInt8} (blanks : Blanks bytes start)
      (value : Form .value start rest) : Form (.item .list) bytes rest
  | member {bytes body colon after start rest : List UInt8} (quote : Token 0x22 bytes body)
      (key : StringForm body colon) (colon : Token 0x3a colon after)
      (blanks : Blanks after start) (value : Form .value start rest) :
      Form (.item .object) bytes rest

/-! ### Lists of items with a meaning -/

/-- What stands in front of an item: blanks, and before every item but the first one a
comma. -/
def Comma : Bool → List UInt8 → List UInt8 → Prop
  | true, bytes, start => Blanks bytes start
  | false, bytes, start => ∃ after, Token 0x2c bytes after ∧ Blanks after start

/-- Items with commas between them, up to and with the closing byte.  The first component
says whether no item stands before. -/
inductive Listed {α : Type} (Item : List UInt8 → α → List UInt8 → Prop) (closer : UInt8) :
    Bool → List UInt8 → List α → List UInt8 → Prop where
  | close {isFirst : Bool} {bytes rest : List UInt8} (closed : Token closer bytes rest) :
      Listed Item closer isFirst bytes [] rest
  | item {isFirst : Bool} {bytes start middle rest : List UInt8} {value : α} {values : List α}
      (comma : Comma isFirst bytes start) (first : Item start value middle)
      (others : Listed Item closer false middle values rest) :
      Listed Item closer isFirst bytes (value :: values) rest

end BuildImpact.Json
