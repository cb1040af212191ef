/-
Module: BuildImpact.Text.Blank
Layer: Text
Purpose: The white space of Unicode, and texts that consist of it.
Imports: none
Trusted boundary: none
Main exports: Blank.isBlank, Blank.isBlankText
Open obligations: none
-/

namespace BuildImpact.Blank

/-- The code points with the property White_Space, in ranges. -/
def ranges : List (Nat × Nat) :=
  [(0x09, 0x0d), (0x20, 0x20), (0x85, 0x85), (0xa0, 0xa0), (0x1680, 0x1680),
    (0x2000, 0x200a), (0x2028, 0x2029), (0x202f, 0x202f), (0x205f, 0x205f), (0x3000, 0x3000)]

/-- Whether a character is white space. -/
def isBlank (char : Char) : Bool :=
  ranges.any fun range => range.1 ≤ char.toNat && char.toNat ≤ range.2

/-- Whether a text holds white space only. -/
def isBlankText (text : String) : Bool := text.toList.all isBlank

end BuildImpact.Blank
