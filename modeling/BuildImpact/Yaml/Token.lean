/-
Module: BuildImpact.Yaml.Token
Layer: YAML
Purpose: The tokens of a YAML text, with those that only indentation and colons show.
Imports: BuildImpact.Yaml.Property
Trusted boundary: none
Main exports: Yaml.TokenKind, Yaml.Token, Yaml.Lexer, Yaml.tokensOf
Open obligations: none
-/
import BuildImpact.Yaml.Property

namespace BuildImpact.Yaml

inductive TokenKind where
  | directive (directive : Directive)
  | documentStart
  | documentEnd
  /-- A block sequence begins. -/
  | blockSequence
  /-- A block mapping begins. -/
  | blockMapping
  /-- A block sequence or mapping ends. -/
  | blockEnd
  | flowSequence
  | flowSequenceEnd
  | flowMapping
  | flowMappingEnd
  /-- The dash of a sequence's item. -/
  | dash
  | comma
  /-- A key of a mapping follows. -/
  | key
  /-- The colon between a key and its value. -/
  | value
  | alias (name : String)
  | anchor (name : String)
  | tag (tag : Tag)
  | scalar (text : String) (style : Style)
  | textEnd
  /-- What follows is no YAML. -/
  | unreadable
deriving Repr, DecidableEq, Inhabited

/-- A token and the places where it begins and where the text goes on. -/
structure Token where
  kind : TokenKind
  start : Place
  stop : Place
deriving Repr, DecidableEq, Inhabited

/-! ### The state between two tokens

Whether a scalar is a key shows only at the colon behind it.  Until then the
scalar is remembered as a possible key, one for each level of brackets; at the
colon, the tokens that begin the key and its mapping go in front of it.
-/

/-- A token that turns out to be a key if a colon follows. -/
structure PossibleKey where
  /-- The number of tokens in front of it. -/
  token : Nat
  /-- The number of bytes in front of it. -/
  index : Nat
  place : Place
  /-- Whether the text is malformed if no colon follows. -/
  isRequired : Bool
deriving Repr, DecidableEq, Inhabited

/-- What has been read, and what it means for the rest. -/
structure Lexer where
  cursor : Cursor
  tokens : Array Token
  /-- The possible key of the innermost brackets. -/
  possible : Option PossibleKey
  /-- The possible keys of the brackets around, innermost first. -/
  around : List (Option PossibleKey)
  /-- The first column inside the innermost block; zero outside every block. -/
  margin : Nat
  /-- The margins of the blocks around, innermost first. -/
  margins : List Nat
  /-- Whether a key may begin here. -/
  allowsKey : Bool
deriving Inhabited

namespace Lexer

def start (text : List Char) : Lexer :=
  ⟨Cursor.start text, #[], none, [], 0, [], true⟩

def inFlow (lexer : Lexer) : Bool := !lexer.around.isEmpty

def add (lexer : Lexer) (kind : TokenKind) (start stop : Place) : Lexer :=
  { lexer with tokens := lexer.tokens.push ⟨kind, start, stop⟩ }

/-- Add an indicator of `length` characters. -/
def indicator (lexer : Lexer) (kind : TokenKind) (length : Nat) : Lexer :=
  let after := lexer.cursor.skip length
  { lexer.add kind lexer.cursor.place after.place with cursor := after }

def column (lexer : Lexer) : Nat := lexer.cursor.place.column

/-! ### Possible keys -/

/-- A key that is too far away is no key any more: it must stand on the same
line, within 1024 bytes. -/
def expire (cursor : Cursor) : Option PossibleKey → Option (Option PossibleKey)
  | none => some none
  | some key =>
    if key.place.line < cursor.place.line || key.index + 1024 < cursor.index then
      if key.isRequired then none else some none
    else some (some key)

def expireKeys (lexer : Lexer) : Option Lexer := do
  let possible ← expire lexer.cursor lexer.possible
  let around ← lexer.around.mapM (expire lexer.cursor)
  return { lexer with possible := possible, around := around }

/-- What stands here is not followed by the colon of a key. -/
def forgetKey (lexer : Lexer) : Option Lexer :=
  match lexer.possible with
  | none => some lexer
  | some key => if key.isRequired then none else some { lexer with possible := none }

/-- The next token may be a key.  One that begins at its block's column has to
be. -/
def markKey (lexer : Lexer) : Option Lexer :=
  if lexer.allowsKey then do
    let lexer ← lexer.forgetKey
    let isRequired := !lexer.inFlow && lexer.margin == lexer.column + 1
    return { lexer with
      possible := some ⟨lexer.tokens.size, lexer.cursor.index, lexer.cursor.place, isRequired⟩ }
  else some lexer

/-! ### Blocks -/

/-- Blocks that the column does not belong to end here; `ends margin` says for
which margins that is. -/
def closeBlocks (lexer : Lexer) (ends : Nat → Bool) : Lexer :=
  if lexer.inFlow then lexer
  else
    let blocks := lexer.margin :: lexer.margins
    let closed := blocks.takeWhile ends
    let ended := (closed.map fun _ => Token.mk .blockEnd lexer.cursor.place lexer.cursor.place)
    let left := blocks.drop closed.length
    { lexer with
      tokens := lexer.tokens ++ ended.toArray
      margin := left.headD 0
      margins := left.tail }

/-- Put a token at position `index`. -/
def insertAt (lexer : Lexer) (index : Nat) (token : Token) : Lexer :=
  { lexer with tokens :=
      lexer.tokens.extract 0 index ++ #[token] ++ lexer.tokens.extract index lexer.tokens.size }

/-- A block begins at `place` if its column lies inside the innermost block; the
token for it goes to position `index`. -/
def openBlock (lexer : Lexer) (kind : TokenKind) (index : Nat) (place : Place) : Lexer :=
  if lexer.inFlow || place.column < lexer.margin then lexer
  else
    { lexer.insertAt index ⟨kind, place, place⟩ with
      margin := place.column + 1
      margins := lexer.margin :: lexer.margins }

/-- A block whose first indicator stands here; the indicator must stand where a
key may. -/
def openBlockHere (lexer : Lexer) (kind : TokenKind) : Option Lexer :=
  if lexer.inFlow then some lexer
  else if lexer.allowsKey then
    some (lexer.openBlock kind lexer.tokens.size lexer.cursor.place)
  else none

/-! ### Reading one token -/

/-- Go over blanks, comments and line ends.  A byte order mark may begin a line.
A tab is a blank only where no block can begin.  Outside brackets a key may
begin on a new line. -/
def skipGap (inFlow : Bool) : Nat → Bool → Cursor → Bool × Cursor
  | 0, allowsKey, cursor => (allowsKey, cursor)
  | fuel + 1, allowsKey, cursor =>
    let cursor :=
      if cursor.place.column = 0 && cursor.at? '\ufeff' then cursor.skip 1 else cursor
    let cursor := cursor.skipWhile fun char =>
      char == ' ' || ((inFlow || !allowsKey) && char == '\t')
    let cursor := if cursor.at? '#' then cursor.skipWhile (!isBreak ·) else cursor
    if cursor.next.any isBreak then skipGap inFlow fuel (allowsKey || !inFlow) cursor.skipBreak
    else (allowsKey, cursor)

/-- Go to the next token; `fuel` is more than there are characters left. -/
def advance (fuel : Nat) (lexer : Lexer) : Option Lexer :=
  let (allowsKey, cursor) := skipGap lexer.inFlow fuel lexer.allowsKey lexer.cursor
  let lexer := { lexer with cursor := cursor, allowsKey := allowsKey }
  lexer.expireKeys.map fun lexer => lexer.closeBlocks (lexer.column + 1 < ·)

/-- All blocks end, and nothing before can be a key. -/
def closeDocument (lexer : Lexer) : Option Lexer :=
  (lexer.closeBlocks (0 < ·)).forgetKey.map ({ · with allowsKey := false })

/-- The end of the text, which is the beginning of a line. -/
def finish (lexer : Lexer) : Option Lexer :=
  let place := lexer.cursor.place
  let below : Place := if place.column = 0 then place else ⟨place.line + 1, 0⟩
  let lexer := { lexer with cursor := { lexer.cursor with place := below } }
  lexer.closeDocument.map (·.add .textEnd below below)

def directive (lexer : Lexer) : Option Lexer := do
  let start := lexer.cursor.place
  let lexer ← lexer.closeDocument
  let (directive, after) ← readDirective lexer.cursor
  return { lexer.add (.directive directive) start after.place with cursor := after }

/-- A marker between documents. -/
def marker (lexer : Lexer) (kind : TokenKind) : Option Lexer :=
  lexer.closeDocument.map (·.indicator kind 3)

def openFlow (lexer : Lexer) (kind : TokenKind) : Option Lexer := do
  let lexer ← lexer.markKey
  return { lexer.indicator kind 1 with
    possible := none
    around := lexer.possible :: lexer.around
    allowsKey := true }

def closeFlow (lexer : Lexer) (kind : TokenKind) : Option Lexer := do
  let lexer ← lexer.forgetKey
  let lexer := match lexer.around with
    | [] => lexer
    | possible :: around => { lexer with possible := possible, around := around }
  return { lexer.indicator kind 1 with allowsKey := false }

def comma (lexer : Lexer) : Option Lexer := do
  let lexer ← lexer.forgetKey
  return { lexer.indicator .comma 1 with allowsKey := true }

/-- The dash of an item.  A sequence begins with its first dash. -/
def dash (lexer : Lexer) : Option Lexer := do
  let lexer ← lexer.openBlockHere .blockSequence
  let lexer ← lexer.forgetKey
  return { lexer.indicator .dash 1 with allowsKey := true }

def question (lexer : Lexer) : Option Lexer := do
  let lexer ← lexer.openBlockHere .blockMapping
  let lexer ← lexer.forgetKey
  return { lexer.indicator .key 1 with allowsKey := !lexer.inFlow }

/-- The colon before a value.  If it follows a possible key, that is a key now,
and its mapping begins with it. -/
def colon (lexer : Lexer) : Option Lexer :=
  match lexer.possible with
  | some key =>
    let lexer := lexer.insertAt key.token ⟨.key, key.place, key.place⟩
    let lexer := lexer.openBlock .blockMapping key.token key.place
    some { lexer.indicator .value 1 with possible := none, allowsKey := false }
  | none => do
    let lexer ← lexer.openBlockHere .blockMapping
    return { lexer.indicator .value 1 with allowsKey := !lexer.inFlow }

/-- An anchor, an alias or a tag, which may belong to a key. -/
def property {α : Type} (lexer : Lexer) (read : Cursor → Option (α × Cursor))
    (kind : α → TokenKind) : Option Lexer := do
  let lexer ← lexer.markKey
  let (found, after) ← read lexer.cursor
  return { lexer.add (kind found) lexer.cursor.place after.place with
    cursor := after
    allowsKey := false }

/-- A scalar, and whether a key may follow it. -/
def scalar (lexer : Lexer) (style : Style) (reading : Option Reading) : Option Lexer := do
  let reading ← reading
  return { lexer.add (.scalar (String.ofList reading.text) style) lexer.cursor.place
      reading.after.place with
    cursor := reading.after
    allowsKey := reading.atLineStart }

/-- A block scalar, which is no key. -/
def blockScalar (lexer : Lexer) (style : Style) : Option Lexer := do
  let lexer ← lexer.forgetKey
  lexer.scalar style (readBlock (style == .literal) lexer.margin lexer.cursor)

/-- A plain or quoted scalar, which may be a key. -/
def wordScalar (lexer : Lexer) (style : Style) : Option Lexer := do
  let lexer ← lexer.markKey
  let reading := match style with
    | .singleQuoted => readQuoted false lexer.cursor
    | .doubleQuoted => readQuoted true lexer.cursor
    | _ => readPlain lexer.inFlow lexer.margin lexer.cursor
  lexer.scalar style reading

/-- The characters that begin no plain scalar. -/
def indicators : List Char := "-?:,[]\x7b\x7d#&*!|>'\"%@`".toList

/-- Whether a plain scalar begins here.  A dash may begin one if no blank
follows, and so may, outside brackets, a colon or a question mark. -/
def beginsPlain (inFlow : Bool) (char : Char) (next : Option Char) : Bool :=
  !(isGap char || indicators.elem char) || (char == '-' && !next.any isSpace) ||
    (!inFlow && (char == '?' || char == ':') && !endsWord next)

def readToken (lexer : Lexer) (char : Char) : Option Lexer :=
  let cursor := lexer.cursor
  let next := cursor.look 1
  let inFlow := lexer.inFlow
  if lexer.column = 0 && char == '%' then lexer.directive
  else if cursor.atMarker '-' then lexer.marker .documentStart
  else if cursor.atMarker '.' then lexer.marker .documentEnd
  else if char == '[' then lexer.openFlow .flowSequence
  else if char == '\x7b' then lexer.openFlow .flowMapping
  else if char == ']' then lexer.closeFlow .flowSequenceEnd
  else if char == '\x7d' then lexer.closeFlow .flowMappingEnd
  else if char == ',' then lexer.comma
  else if char == '-' && endsWord next then lexer.dash
  else if char == '?' && (inFlow || endsWord next) then lexer.question
  else if char == ':' && (inFlow || endsWord next) then lexer.colon
  else if char == '*' then lexer.property readAnchor .alias
  else if char == '&' then lexer.property readAnchor .anchor
  else if char == '!' then lexer.property (readTag inFlow) .tag
  else if char == '|' && !inFlow then lexer.blockScalar .literal
  else if char == '>' && !inFlow then lexer.blockScalar .folded
  else if char == '\'' then lexer.wordScalar .singleQuoted
  else if char == '"' then lexer.wordScalar .doubleQuoted
  else if beginsPlain inFlow char next then lexer.wordScalar .plain
  else none

/-! ### All tokens -/

/-- The number of tokens in front of which nothing can be put any more, where
that is known of the first `settled` ones. -/
def settle (lexer : Lexer) (settled : Nat) : Nat :=
  match lexer.expireKeys with
  | none => settled
  | some lexer =>
    let possible := (lexer.possible :: lexer.around).filterMap fun key => key.map (·.token)
    possible.foldl min lexer.tokens.size

/-- The settled tokens, and that no other one can be read. -/
def breakOff (lexer : Lexer) (settled : Nat) : List Token :=
  let place := lexer.cursor.place
  (lexer.tokens.toList.take settled) ++ [⟨.unreadable, place, place⟩]

/-- Read up to `fuel` tokens and the end of the text.  Where that fails, only
tokens that are settled count as read. -/
def run : Nat → Nat → Lexer → List Token
  | 0, settled, lexer => lexer.breakOff settled
  | fuel + 1, settled, lexer =>
    match lexer.advance (fuel + 1) with
    | none => lexer.breakOff settled
    | some ahead =>
      match ahead.cursor.next with
      | none =>
        match ahead.finish with
        | none => lexer.breakOff settled
        | some done => done.tokens.toList
      | some char =>
        match ahead.readToken char with
        | none => lexer.breakOff settled
        | some after => run fuel (after.settle settled) after

end Lexer

/-- The tokens of a text, up to its end or to what cannot be read.  Every token
but the last takes a character, so that one more than there are characters is
enough.  Nothing is read of a text with a character that no YAML has. -/
def tokensOf (text : String) : List Token :=
  let characters := text.toList
  let lexer := Lexer.start characters
  if characters.all isReadable then lexer.run (characters.length + 1) 0 else lexer.breakOff 0

end BuildImpact.Yaml
