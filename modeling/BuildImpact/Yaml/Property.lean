/-
Module: BuildImpact.Yaml.Property
Layer: YAML
Purpose: What may stand in front of a node or a document: anchors, tags and directives.
Imports: BuildImpact.Yaml.Scalar
Trusted boundary: none
Main exports: Yaml.Tag, Yaml.readAnchor, Yaml.readTag, Yaml.Directive, Yaml.readDirective
Open obligations: none
-/
import BuildImpact.Yaml.Scalar

namespace BuildImpact.Yaml

/-! ### Anchors -/

/-- The characters that may follow an anchor, blanks apart. -/
def anchorFollowers : List Char := "?:,]\x7d%@`".toList

/-- Read the name of an anchor or an alias from its indicator on. -/
def readAnchor (cursor : Cursor) : Option (String × Cursor) :=
  let name := (cursor.skip 1).rest.takeWhile isNameChar
  let after := cursor.skip (1 + name.length)
  if name.isEmpty then none
  else if endsWord after.next || after.next.any (anchorFollowers.elem ·) then
    some (String.ofList name, after)
  else none

/-! ### Tags -/

/-- A tag as it is written: a handle that a directive explains, and the rest.
Without a handle the rest is the whole tag.  Each character is one octet: an
escape may write octets that are no text. -/
structure Tag where
  handle : String
  suffix : String
deriving Repr, DecidableEq, Inhabited

/-- Whether a character may stand in a tag.  Commas and brackets may only
between angle brackets. -/
def isTagChar (isVerbatim : Bool) (char : Char) : Bool :=
  isNameChar char || ";/?:@&=+$.%!~*'()".toList.elem char ||
    (isVerbatim && ",[]".toList.elem char)

/-- The octet that a percent sign and two hexadecimal digits write. -/
def readOctet : List Char → Option Nat
  | '%' :: high :: low :: _ => do return (← hexValue? high) * 16 + (← hexValue? low)
  | _ => none

/-- Read `count` octets that continue a sequence. -/
def continueOctets : Nat → List Char → Option (List Char)
  | 0, _ => some []
  | count + 1, text => do
    let octet ← readOctet text
    if octet / 0x40 = 2 then return Char.ofNat octet :: (← continueOctets count (text.drop 3))
    else none

/-- The octets that are escaped one after the other.  The first one tells how
many continue it, and no more than that is asked of them. -/
def readOctets (text : List Char) : Option (List Char) := do
  let first ← readOctet text
  let more ←
    if first < 0x80 then some 0
    else if first / 0x20 = 6 then some 1
    else if first / 0x10 = 14 then some 2
    else if first / 0x08 = 30 then some 3
    else none
  return Char.ofNat first :: (← continueOctets more (text.drop 3))

def tagText (isVerbatim : Bool) : Nat → List Char → Cursor → Option (List Char × Cursor)
  | 0, text, cursor => some (text, cursor)
  | fuel + 1, text, cursor =>
    match cursor.next with
    | none => some (text, cursor)
    | some char =>
      if char == '%' then
        match readOctets cursor.rest with
        | none => none
        | some octets =>
          tagText isVerbatim fuel (text ++ octets) (cursor.skip (3 * octets.length))
      else if isTagChar isVerbatim char then
        tagText isVerbatim fuel (text ++ [char]) (cursor.skip 1)
      else some (text, cursor)

/-- Read the characters of a tag; there is at least one. -/
def readTagText (isVerbatim : Bool) (cursor : Cursor) : Option (String × Cursor) := do
  let (text, after) ← tagText isVerbatim (cursor.rest.length + 1) [] cursor
  if text.isEmpty then none else return (String.ofList text, after)

/-- The exclamation mark at hand with the name behind it, and with the second
mark if the name ends in one. -/
def readHandle (cursor : Cursor) : List Char × Cursor :=
  let name := (cursor.skip 1).rest.takeWhile isNameChar
  let after := cursor.skip (1 + name.length)
  if after.at? '!' then ('!' :: name ++ ['!'], after.skip 1) else ('!' :: name, after)

/-- Read a tag up to the character behind it.  Where nothing follows the
exclamation mark, or a zero octet does, that mark is the whole tag. -/
def readTagBody (cursor : Cursor) : Option (Tag × Cursor) :=
  if cursor.look 1 == some '<' then do
    let (text, after) ← readTagText true (cursor.skip 2)
    if after.at? '>' then return (⟨"", text⟩, after.skip 1) else none
  else do
    let (handle, after) := readHandle cursor
    if handle.length > 1 && handle.getLast? == some '!' then
      let (suffix, after) ← readTagText false after
      return (⟨String.ofList handle, suffix⟩, after)
    else
      let (text, after) ← tagText false (after.rest.length + 1) (handle.drop 1) after
      if text.head?.all (· == '\x00') then return (⟨"", "!"⟩, after)
      else return (⟨"!", String.ofList text⟩, after)

/-- Read a tag; a blank follows it, or a comma inside brackets. -/
def readTag (inFlow : Bool) (cursor : Cursor) : Option (Tag × Cursor) := do
  let (tag, after) ← readTagBody cursor
  if endsWord after.next || (inFlow && after.at? ',') then return (tag, after) else none

/-! ### Directives -/

/-- A line before a document. -/
inductive Directive where
  /-- The version of YAML. -/
  | version (major minor : Nat)
  /-- What a tag handle stands for. -/
  | handle (handle stem : String)
deriving Repr, DecidableEq, Inhabited

/-- The number that decimal digits write. -/
def decimalNumber (digits : List Char) : Nat :=
  digits.foldl (fun number digit => number * 10 + (digit.toNat - 0x30)) 0

/-- Read a part of a version: one to nine digits. -/
def readVersionPart (cursor : Cursor) : Option (Nat × Cursor) :=
  let digits := cursor.rest.takeWhile Char.isDigit
  if digits.isEmpty || 9 < digits.length then none
  else some (decimalNumber digits, cursor.skip digits.length)

/-- Read what follows the name of a directive. -/
def readDirectiveValue (name : List Char) (cursor : Cursor) : Option (Directive × Cursor) :=
  if name == "YAML".toList then do
    let (major, cursor) ← readVersionPart cursor
    if cursor.at? '.' then
      let (minor, cursor) ← readVersionPart (cursor.skip 1)
      return (.version major minor, cursor)
    else none
  else if name == "TAG".toList && cursor.at? '!' then do
    let (handle, cursor) := readHandle cursor
    if handle.getLast? == some '!' && cursor.next.any isSpace then
      let (stem, cursor) ← readTagText true (cursor.skipWhile isSpace)
      if endsWord cursor.next then return (.handle (String.ofList handle) stem, cursor) else none
    else none
  else none

/-- Read a directive with the end of its line. -/
def readDirective (cursor : Cursor) : Option (Directive × Cursor) := do
  let name := (cursor.skip 1).rest.takeWhile isNameChar
  let cursor := cursor.skip (1 + name.length)
  if name.isEmpty || !endsWord cursor.next then none
  else
    let (directive, cursor) ← readDirectiveValue name (cursor.skipWhile isSpace)
    let cursor := cursor.skipWhile isSpace
    let cursor := if cursor.at? '#' then cursor.skipWhile (!isBreak ·) else cursor
    if !endsLine cursor.next then none
    else return (directive, if cursor.next.isSome then cursor.skipBreak else cursor)

end BuildImpact.Yaml
