/-
Module: BuildImpact.Yaml.Cursor
Layer: YAML
Purpose: Places in a text, the characters that matter to YAML, and moving on.
Imports: none
Trusted boundary: none
Main exports: Yaml.Place, Yaml.Cursor, Yaml.isBreak, Yaml.isGap, Yaml.endsWord,
  Yaml.Cursor.skip, Yaml.Cursor.takeBreak, Yaml.isReadable
Open obligations: none
-/

namespace BuildImpact.Yaml

/-- A place in a text; lines and columns count from zero, columns in
characters. -/
structure Place where
  line : Nat
  column : Nat
deriving Repr, DecidableEq, Inhabited

/-! ### Characters -/

/-- Whether a character may stand in a YAML text at all. -/
def isReadable (char : Char) : Bool :=
  let code := char.toNat
  code = 0x09 || code = 0x0a || code = 0x0d || (0x20 ≤ code && code ≤ 0x7e) || code = 0x85 ||
    (0xa0 ≤ code && code ≤ 0xd7ff) || (0xe000 ≤ code && code ≤ 0xfffd) || 0x10000 ≤ code

/-- The characters that end a line. -/
def isBreak (char : Char) : Bool :=
  char == '\n' || char == '\r' || char == '\u0085' || char == '\u2028' || char == '\u2029'

def isSpace (char : Char) : Bool := char == ' ' || char == '\t'

def isGap (char : Char) : Bool := isSpace char || isBreak char

/-- The characters of names: of anchors, tags and directives. -/
def isNameChar (char : Char) : Bool := char.isAlphanum || char == '_' || char == '-'

/-- Whether nothing, a blank or a line end stands here. -/
def endsWord : Option Char → Bool
  | none => true
  | some char => isGap char

/-- Whether nothing or a line end stands here. -/
def endsLine : Option Char → Bool
  | none => true
  | some char => isBreak char

/-! ### Moving through a text -/

/-- The number of bytes of characters in UTF-8. -/
def byteLength (chars : List Char) : Nat :=
  chars.foldl (fun length char => length + char.utf8Size) 0

/-- The rest of a text and the place where it begins. -/
structure Cursor where
  rest : List Char
  /-- The number of bytes before the rest. -/
  index : Nat
  place : Place
deriving Repr, Inhabited

namespace Cursor

def start (text : List Char) : Cursor := ⟨text, 0, ⟨0, 0⟩⟩

/-- The character that is `ahead` characters away. -/
def look (cursor : Cursor) (ahead : Nat) : Option Char := cursor.rest[ahead]?

def next (cursor : Cursor) : Option Char := cursor.look 0

/-- Whether the next character is the given one. -/
def at? (cursor : Cursor) (char : Char) : Bool := cursor.next == some char

/-- Go over characters of the same line. -/
def skip (cursor : Cursor) (count : Nat) : Cursor :=
  let passed := cursor.rest.take count
  ⟨cursor.rest.drop count, cursor.index + byteLength passed,
    ⟨cursor.place.line, cursor.place.column + passed.length⟩⟩

/-- Go over the characters of the same line that satisfy `accepts`. -/
def skipWhile (cursor : Cursor) (accepts : Char → Bool) : Cursor :=
  cursor.skip (cursor.rest.takeWhile accepts).length

/-- Go over a line end.  A carriage return with a line feed is one line end. -/
def skipBreak (cursor : Cursor) : Cursor :=
  let below : Place := ⟨cursor.place.line + 1, 0⟩
  match cursor.rest with
  | '\r' :: '\n' :: rest => ⟨rest, cursor.index + 2, below⟩
  | char :: rest => ⟨rest, cursor.index + char.utf8Size, below⟩
  | [] => cursor

/-- The line end at hand as it counts inside a scalar, if there is one. -/
def takeBreak (cursor : Cursor) : List Char :=
  match cursor.next with
  | none => []
  | some char =>
    if char == '\u2028' || char == '\u2029' then [char]
    else if isBreak char then ['\n'] else []

/-- Whether a line begins here with the given three characters and a gap. -/
def atMarker (cursor : Cursor) (mark : Char) : Bool :=
  cursor.place.column == 0 && cursor.look 0 == some mark && cursor.look 1 == some mark &&
    cursor.look 2 == some mark && endsWord (cursor.look 3)

/-- Whether a line begins here with the marker of a document's start or end. -/
def atDocumentMarker (cursor : Cursor) : Bool := cursor.atMarker '-' || cursor.atMarker '.'

end Cursor

end BuildImpact.Yaml
