/-
Module: BuildImpact.Json.Print
Layer: JSON
Purpose: JSON values as indented text.
Imports: BuildImpact.Decimal.Shortest
Trusted boundary: none
Main exports: Json.Value, Json.quote, Json.Value.pretty
Open obligations: none
-/
import BuildImpact.Decimal.Shortest

namespace BuildImpact.Json

/-- A value to be written.  The keys of an object stay in the given order. -/
inductive Value where
  | null
  | number (value : Nat)
  | string (text : String)
  | list (items : List Value)
  | object (entries : List (String × Value))
deriving Repr, Inhabited

/-- A code below 256 in four hexadecimal digits. -/
def fourDigits (code : Nat) : String :=
  String.ofList ['0', '0', Nat.digitChar (code / 16 % 16), Nat.digitChar (code % 16)]

/-- A character between quotes: quotes, backslashes and control characters are
escaped, and everything else stands as it is. -/
def escape (char : Char) : String :=
  match char with
  | '"' => "\\\""
  | '\\' => "\\\\"
  | '\n' => "\\n"
  | '\r' => "\\r"
  | '\t' => "\\t"
  | '\x08' => "\\b"
  | '\x0c' => "\\f"
  | _ => if char.toNat < 0x20 then "\\u" ++ fourDigits char.toNat else char.toString

def quote (text : String) : String :=
  "\"" ++ String.join (text.toList.map escape) ++ "\""

/-- The blanks in front of a line. -/
def indentation (depth : Nat) : String := String.ofList (List.replicate (2 * depth) ' ')

/-- Lines between brackets; without lines the brackets touch. -/
def bracketed (depth : Nat) (opening closing : String) (lines : List String) : String :=
  if lines.isEmpty then opening ++ closing
  else
    let front := "\n" ++ indentation (depth + 1)
    opening ++ front ++ String.intercalate ("," ++ front) lines ++ "\n" ++ indentation depth ++
      closing

mutual

/-- A value as text: every item and entry has a line of its own, indented by two
blanks for each bracket around it. -/
def Value.pretty (depth : Nat) : Value → String
  | .null => "null"
  | .number value => Decimal.natural value
  | .string text => quote text
  | .list items => bracketed depth "[" "]" (prettyItems (depth + 1) items)
  | .object entries => bracketed depth "\x7b" "\x7d" (prettyEntries (depth + 1) entries)

def prettyItems (depth : Nat) : List Value → List String
  | [] => []
  | item :: items => item.pretty depth :: prettyItems depth items

def prettyEntries (depth : Nat) : List (String × Value) → List String
  | [] => []
  | (key, value) :: entries =>
    (quote key ++ ": " ++ value.pretty depth) :: prettyEntries depth entries

end

end BuildImpact.Json
