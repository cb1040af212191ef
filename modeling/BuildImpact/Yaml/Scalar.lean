/-
Module: BuildImpact.Yaml.Scalar
Layer: YAML
Purpose: The texts of plain, quoted and block scalars.
Imports: BuildImpact.Yaml.Cursor
Trusted boundary: none
Main exports: Yaml.Style, Yaml.Gap, Yaml.readPlain, Yaml.readQuoted, Yaml.readBlock
Open obligations: none
-/
import BuildImpact.Yaml.Cursor

namespace BuildImpact.Yaml

/-- How a scalar is written. -/
inductive Style where
  | plain
  | singleQuoted
  | doubleQuoted
  | literal
  | folded
deriving Repr, DecidableEq, Inhabited

/-! ### Gaps

Between two words of a scalar, blanks on one line stay as they are.  Around
line ends blanks vanish; a single line feed becomes a space, and of several
the first one is dropped.
-/

/-- What stands between two words. -/
structure Gap where
  /-- The blanks, as long as no line has ended. -/
  blanks : List Char
  /-- The first line end. -/
  firstBreak : List Char
  /-- The line ends after the first one. -/
  moreBreaks : List Char
  /-- Whether a line has ended. -/
  isFolded : Bool
deriving Repr, DecidableEq, Inhabited

namespace Gap

def empty : Gap := ⟨[], [], [], false⟩

/-- One line end that is escaped, and so gives nothing. -/
def escaped : Gap := ⟨[], [], [], true⟩

def addBlank (gap : Gap) (char : Char) : Gap :=
  if gap.isFolded then gap else { gap with blanks := gap.blanks ++ [char] }

def addBreak (gap : Gap) (lineEnd : List Char) : Gap :=
  if gap.isFolded then { gap with moreBreaks := gap.moreBreaks ++ lineEnd }
  else { gap with blanks := [], firstBreak := lineEnd, isFolded := true }

/-- What a gap contributes to the text. -/
def text (gap : Gap) : List Char :=
  if !gap.isFolded then gap.blanks
  else if gap.firstBreak == ['\n'] then
    if gap.moreBreaks.isEmpty then [' '] else gap.moreBreaks
  else gap.firstBreak ++ gap.moreBreaks

end Gap

/-- Go over blanks and line ends.  Fails for a tab that begins a line left of
column `indent`. -/
def readGap (indent : Nat) : Nat → Gap → Cursor → Option (Gap × Cursor)
  | 0, gap, cursor => some (gap, cursor)
  | fuel + 1, gap, cursor =>
    match cursor.next with
    | none => some (gap, cursor)
    | some char =>
      if isBreak char then readGap indent fuel (gap.addBreak cursor.takeBreak) cursor.skipBreak
      else if isSpace char then
        if gap.isFolded && cursor.place.column < indent && char == '\t' then none
        else readGap indent fuel (gap.addBlank char) (cursor.skip 1)
      else some (gap, cursor)

/-! ### Plain scalars -/

/-- Whether a character ends a plain scalar inside brackets. -/
def isFlowIndicator (char : Char) : Bool :=
  char == ',' || char == '[' || char == ']' || char == '{' || char == '}'

/-- The length of the word at hand.  Inside brackets a colon must not touch an
indicator. -/
def wordLength (inFlow : Bool) : List Char → Option Nat
  | [] => some 0
  | char :: rest =>
    if isGap char then some 0
    else if char == ':' && endsWord rest.head? then some 0
    else if inFlow && char == ':' &&
        rest.head?.any (fun next => isFlowIndicator next || next == '?') then
      none
    else if inFlow && isFlowIndicator char then some 0
    else (wordLength inFlow rest).map (· + 1)

/-- A scalar that has been read: its text, where reading goes on, and whether
that is at the beginning of a line. -/
structure Reading where
  text : List Char
  after : Cursor
  atLineStart : Bool
deriving Repr, Inhabited

/-- Go on with a plain scalar.  `indent` is the first column that belongs to it,
and `gathered` holds its characters so far, the last one first.  There is more
fuel than there are characters. -/
def plainFrom (inFlow : Bool) (indent : Nat) : Nat → List Char → Gap → Cursor → Option Reading
  | 0, _, _, _ => none
  | fuel + 1, gathered, gap, cursor =>
    if cursor.atDocumentMarker || cursor.at? '#' then
      some ⟨gathered.reverse, cursor, gap.isFolded⟩
    else
      match wordLength inFlow cursor.rest with
      | none => none
      | some length =>
        let word := cursor.rest.take length
        let behind := cursor.skip length
        let joined :=
          if word.isEmpty then gathered else word.reverse ++ (gap.text.reverse ++ gathered)
        let pending := if word.isEmpty then gap else Gap.empty
        match behind.next with
        | none => some ⟨joined.reverse, behind, pending.isFolded⟩
        | some char =>
          if isGap char then
            match readGap indent fuel pending behind with
            | none => none
            | some (gap, cursor) =>
              if !inFlow && cursor.place.column < indent then
                some ⟨joined.reverse, cursor, gap.isFolded⟩
              else plainFrom inFlow indent fuel joined gap cursor
          else some ⟨joined.reverse, behind, pending.isFolded⟩

def readPlain (inFlow : Bool) (indent : Nat) (cursor : Cursor) : Option Reading :=
  plainFrom inFlow indent (cursor.rest.length + 1) [] Gap.empty cursor

/-! ### Quoted scalars -/

/-- The character that a one-letter escape stands for. -/
def shortEscape? : Char → Option Char
  | '0' => some '\x00'
  | 'a' => some '\x07'
  | 'b' => some '\x08'
  | 't' => some '\t'
  | '\t' => some '\t'
  | 'n' => some '\n'
  | 'v' => some '\x0b'
  | 'f' => some '\x0c'
  | 'r' => some '\r'
  | 'e' => some '\x1b'
  | ' ' => some ' '
  | '"' => some '"'
  | '/' => some '/'
  | '\\' => some '\\'
  | 'N' => some '\u0085'
  | '_' => some '\u00a0'
  | 'L' => some '\u2028'
  | 'P' => some '\u2029'
  | _ => none

/-- The number of hexadecimal digits behind an escape letter. -/
def escapeWidth? : Char → Option Nat
  | 'x' => some 2
  | 'u' => some 4
  | 'U' => some 8
  | _ => none

def hexValue? (char : Char) : Option Nat :=
  if char.isDigit then some (char.toNat - 0x30)
  else if 'a' ≤ char && char ≤ 'f' then some (char.toNat - 0x57)
  else if 'A' ≤ char && char ≤ 'F' then some (char.toNat - 0x37)
  else none

/-- The number that all the given digits write. -/
def hexNumber? (digits : List Char) : Option Nat :=
  digits.foldl (fun number digit => do return (← number) * 16 + (← hexValue? digit)) (some 0)

/-- The character with a code point; surrogates are none. -/
def charOf? (code : Nat) : Option Char :=
  if code.isValidChar then some (Char.ofNat code) else none

/-- The character of the escape at hand, and the length of the escape with its
backslash. -/
def readEscape (rest : List Char) : Option (Char × Nat) := do
  let letter ← rest[1]?
  match shortEscape? letter with
  | some char => return (char, 2)
  | none =>
    let width ← escapeWidth? letter
    let digits := (rest.drop 2).take width
    if digits.length < width then none
    else
      let char ← charOf? (← hexNumber? digits)
      return (char, 2 + width)

/-- What ends a run of words and blanks inside quotes. -/
inductive Stop where
  /-- The closing quote. -/
  | quote
  /-- A blank, a line end or the end of the text. -/
  | gap
  /-- An escaped line end. -/
  | escapedBreak
deriving Repr, DecidableEq, Inhabited

/-- Read a word inside quotes.  `gathered` holds the characters so far, the last
one first. -/
def quotedWord (isDouble : Bool) : Nat → List Char → Cursor → Option (List Char × Cursor × Stop)
  | 0, _, _ => none
  | fuel + 1, gathered, cursor =>
    match cursor.next with
    | none => some (gathered, cursor, .gap)
    | some char =>
      if isGap char then some (gathered, cursor, .gap)
      else if !isDouble && char == '\'' && cursor.look 1 == some '\'' then
        quotedWord isDouble fuel ('\'' :: gathered) (cursor.skip 2)
      else if char == (if isDouble then '"' else '\'') then some (gathered, cursor, .quote)
      else if isDouble && char == '\\' then
        if (cursor.look 1).any isBreak then
          some (gathered, (cursor.skip 1).skipBreak, .escapedBreak)
        else
          match readEscape cursor.rest with
          | none => none
          | some (char, length) =>
            quotedWord isDouble fuel (char :: gathered) (cursor.skip length)
      else quotedWord isDouble fuel (char :: gathered) (cursor.skip 1)

/-- Go on with a quoted scalar up to and with its closing quote.  There is more
fuel than there are characters. -/
def quotedFrom (isDouble : Bool) : Nat → List Char → Cursor → Option Reading
  | 0, _, _ => none
  | fuel + 1, gathered, cursor =>
    if cursor.atDocumentMarker || cursor.next.isNone then none
    else
      match quotedWord isDouble (fuel + 1) gathered cursor with
      | none => none
      | some (gathered, cursor, stop) =>
        match stop with
        | .quote => some ⟨gathered.reverse, cursor.skip 1, false⟩
        | .gap | .escapedBreak =>
          let gap := if stop == .escapedBreak then Gap.escaped else Gap.empty
          match readGap 0 fuel gap cursor with
          | none => none
          | some (gap, cursor) =>
            quotedFrom isDouble fuel (gap.text.reverse ++ gathered) cursor

/-- Read a quoted scalar from its opening quote on. -/
def readQuoted (isDouble : Bool) (cursor : Cursor) : Option Reading :=
  quotedFrom isDouble (cursor.rest.length + 1) [] (cursor.skip 1)

/-! ### Block scalars -/

/-- What happens to the line ends after the last line. -/
inductive Chomping where
  | strip
  | clip
  | keep
deriving Repr, DecidableEq, Inhabited

/-- The chomping that a sign asks for. -/
def Chomping.ofSign? : Option Char → Option Chomping
  | some '+' => some .keep
  | some '-' => some .strip
  | _ => none

/-- The digit that gives the indentation; it is not zero. -/
def indentDigit? : Option Char → Option Nat
  | some char => if char.isDigit then some (char.toNat - 0x30) else none
  | none => none

/-- Read the sign and the digit behind the indicator, in any order. -/
def blockHeader (cursor : Cursor) : Option (Chomping × Nat × Cursor) :=
  match Chomping.ofSign? cursor.next with
  | some chomping =>
    let cursor := cursor.skip 1
    match indentDigit? cursor.next with
    | some 0 => none
    | some indent => some (chomping, indent, cursor.skip 1)
    | none => some (chomping, 0, cursor)
  | none =>
    match indentDigit? cursor.next with
    | some 0 => none
    | some indent =>
      let cursor := cursor.skip 1
      match Chomping.ofSign? cursor.next with
      | some chomping => some (chomping, indent, cursor.skip 1)
      | none => some (.clip, indent, cursor)
    | none => some (.clip, 0, cursor)

/-- Go over indentation and empty lines.  An `indent` of zero is not known yet;
then the deepest column met is given with the line ends. -/
def blockBreaks (indent : Nat) : Nat → Nat → List Char → Cursor → Option (Nat × List Char × Cursor)
  | 0, deepest, breaks, cursor => some (deepest, breaks, cursor)
  | fuel + 1, deepest, breaks, cursor =>
    let spaces := (cursor.rest.takeWhile (· == ' ')).length
    let allowed := if indent = 0 then spaces else min spaces (indent - cursor.place.column)
    let cursor := cursor.skip allowed
    let deepest := max deepest cursor.place.column
    if (indent = 0 || cursor.place.column < indent) && cursor.at? '\t' then none
    else if cursor.next.any isBreak then
      blockBreaks indent fuel deepest (breaks ++ cursor.takeBreak) cursor.skipBreak
    else some (deepest, breaks, cursor)

/-- What is known between two lines of a block scalar. -/
structure BlockState where
  text : List Char
  /-- The end of the line before. -/
  lineEnd : List Char
  /-- The empty lines after it. -/
  breaks : List Char
  /-- Whether the line before began with a blank. -/
  afterIndented : Bool
deriving Repr, Inhabited

def blockLines (isLiteral : Bool) (indent : Nat) : Nat → BlockState → Cursor →
    Option (BlockState × Cursor)
  | 0, state, cursor => some (state, cursor)
  | fuel + 1, state, cursor =>
    if cursor.place.column == indent && cursor.next.isSome then
      let isIndented := cursor.next.any isSpace
      let folds := !isLiteral && state.lineEnd == ['\n'] && !state.afterIndented && !isIndented
      let between :=
        if folds then if state.breaks.isEmpty then [' '] else [] else state.lineEnd
      let line := cursor.rest.takeWhile (!isBreak ·)
      let behind := cursor.skip line.length
      let lineEnd := behind.takeBreak
      let below := if lineEnd.isEmpty then behind else behind.skipBreak
      match blockBreaks indent (below.rest.length + 1) 0 [] below with
      | none => none
      | some (_, breaks, after) =>
        blockLines isLiteral indent fuel
          ⟨state.text ++ between ++ state.breaks ++ line, lineEnd, breaks, isIndented⟩ after
    else some (state, cursor)

/-- Read a block scalar from its indicator on.  `margin` is the first column
inside the block around it, or zero outside every block. -/
def readBlock (isLiteral : Bool) (margin : Nat) (cursor : Cursor) : Option Reading := do
  let (chomping, digit, cursor) ← blockHeader (cursor.skip 1)
  let cursor := cursor.skipWhile isSpace
  let cursor := if cursor.at? '#' then cursor.skipWhile (!isBreak ·) else cursor
  if !endsLine cursor.next then none
  else
    let cursor := if cursor.next.isSome then cursor.skipBreak else cursor
    let given := if digit = 0 then 0 else margin - 1 + digit
    let (deepest, breaks, cursor) ← blockBreaks given (cursor.rest.length + 1) 0 [] cursor
    let indent := if given = 0 then max deepest (max margin 1) else given
    let (state, cursor) ←
      blockLines isLiteral indent (cursor.rest.length + 1) ⟨[], [], breaks, false⟩ cursor
    let tail := match chomping with
      | .strip => []
      | .clip => state.lineEnd
      | .keep => state.lineEnd ++ state.breaks
    return ⟨state.text ++ tail, cursor, true⟩

end BuildImpact.Yaml
