/-
Module: BuildImpact.Settings.Entries
Layer: Settings
Purpose: Settings from the entries of a mapping, and from a text.
Imports: BuildImpact.Settings.Fault, BuildImpact.Text.Blank
Trusted boundary: none
Main exports: Settings.path?, Settings.count?, Settings.boolean?, Settings.Draft,
  Settings.ofEntries, Settings.ofDocument, Settings.ofText
Open obligations: none
-/
import BuildImpact.Settings.Fault
import BuildImpact.Text.Blank

namespace BuildImpact.Settings

open Yaml

/-! ### Values -/

/-- What a node is found to be. -/
def Found.ofContent : Content → Found
  | .sequence => .sequence
  | .mapping => .mapping
  | .scalar text style tag =>
    match Value.ofScalar text style tag with
    | .ok held => .value held
    | .error tag => .mistagged text tag

/-- Whether a scalar is more than text: it is plain, or a literal block with the
tag of its type. -/
def isTyped (style : Style) (tag : Option String) (type : CoreTag) : Bool :=
  match style with
  | .plain => true
  | .literal => tag == some type.name
  | _ => false

/-- The truth value that a node gives. -/
def boolean? : Content → Option Bool
  | .scalar text style tag =>
    if isTyped style tag .boolean then Yaml.boolean? text else none
  | _ => none

/-- The count that a node gives; it has at most 64 bits. -/
def count? : Content → Option Nat
  | .scalar text style tag =>
    if isTyped style tag .integer then (natural? text.toList).filter (· < UInt64.size) else none
  | _ => none

/-- The path that a node gives.  A plain scalar can give none; any other scalar
gives its text. -/
def path? : Content → Except Found (Option String)
  | .scalar text .plain none => .ok (if isNull text then none else some text)
  | .scalar text .plain (some tag) =>
    if tag = CoreTag.null.name then
      if isNullWord text then .ok none else .error (.mistagged text .null)
    else .ok (some text)
  | .scalar text _ _ => .ok (some text)
  | content => .error (Found.ofContent content)

/-! ### Entries -/

/-- The settings given so far. -/
structure Draft where
  /-- The path that is given, or that it is given as none. -/
  graph : Option (Option String) := none
  maxDisplay : Option Nat := none
  json : Option Bool := none
deriving Repr, DecidableEq, Inhabited

def Draft.has (draft : Draft) : Field → Bool
  | .graph => draft.graph.isSome
  | .maxDisplay => draft.maxDisplay.isSome
  | .json => draft.json.isSome

/-- The text of a key; anything but a scalar is no key. -/
def readKey (node : Node) : Except Fault String :=
  match node.content with
  | .scalar text _ _ => .ok text
  | content =>
    .error (.placed (.wrongType "" (Found.ofContent content) .fieldName) node.place)

/-- The field that a key names. -/
def readField (node : Node) : Except Fault Field :=
  match readKey node with
  | .error fault => .error fault
  | .ok name =>
    match Field.ofName? name with
    | some field => .ok field
    | none => .error (.placed (.unknownField name) node.place)

/-- Read a value into the draft.  A path whose text does not fit its tag is a
fault of the whole mapping. -/
def readValue (mapping : Place) (label : String) (field : Field) (node : Node) (draft : Draft) :
    Except Fault Draft :=
  let refuse (wanted : Wanted) : Except Fault Draft :=
    .error (.placed (.wrongType label (Found.ofContent node.content) wanted) node.place)
  match field with
  | .graph =>
    match path? node.content with
    | .ok path => .ok { draft with graph := some path }
    | .error (.mistagged text tag) =>
      .error (.placed (.wrongType "" (.mistagged text tag) .path) mapping)
    | .error _ => refuse .path
  | .maxDisplay =>
    match count? node.content with
    | some count => .ok { draft with maxDisplay := some count }
    | none => refuse .count
  | .json =>
    match boolean? node.content with
    | some value => .ok { draft with json := some value }
    | none => refuse .boolean

/-- The field that a key names; it must not have been given before. -/
def readNewField (mapping : Place) (draft : Draft) (key : Node) : Except Fault Field :=
  match readField key with
  | .error fault => .error fault
  | .ok field =>
    if draft.has field then .error (.placed (.duplicateField field) mapping) else .ok field

/-- Read an entry.  Its key is judged before its value.  A key that is an alias
has no name in messages. -/
def readEntry (mapping : Place) (draft : Draft) (entry : Entry) : Except Fault Draft :=
  match readNewField mapping draft entry.key with
  | .error fault => .error fault
  | .ok field =>
    let label := if entry.isKeyWritten then field.name else "?"
    readValue mapping label field entry.value draft

/-- Read entries in order, up to the first fault. -/
def readEntries (mapping : Place) : Draft → List Entry → Except Fault Draft
  | draft, [] => .ok draft
  | draft, entry :: entries =>
    match readEntry mapping draft entry with
    | .error fault => .error fault
    | .ok draft => readEntries mapping draft entries

/-- The settings of a draft: what is missing has its default.  Only here is a
count of zero refused. -/
def Draft.settings (draft : Draft) : Except Fault Settings :=
  let maxDisplay := draft.maxDisplay.getD Settings.default.maxDisplay
  if positive : 0 < maxDisplay then
    .ok {
      graph := draft.graph.getD Settings.default.graph
      maxDisplay := maxDisplay
      json := draft.json.getD Settings.default.json
      maxDisplay_pos := positive }
  else .error (.general .zeroMaxDisplay)

/-- The settings that the entries of a mapping give. -/
def ofEntries (mapping : Place) (entries : List Entry) : Except Fault Settings :=
  match readEntries mapping {} entries with
  | .error fault => .error fault
  | .ok draft => draft.settings

/-! ### Documents -/

/-- The draft that a document gives as far as it could be read: a mapping, or
nothing at all.  A key is judged even if its value was not reached. -/
def readDocument (document : Document) : Except Fault Draft :=
  match document.top with
  | none => .ok {}
  | some top =>
    match top.content with
    | .mapping =>
      match readEntries top.place {} document.entries, document.openKey with
      | .error fault, _ => .error fault
      | .ok draft, none => .ok draft
      | .ok draft, some key => (readNewField top.place draft key).map fun _ => draft
    | .scalar "" .plain _ => .ok {}
    | content =>
      .error (.placed (.wrongType "" (Found.ofContent content) .settings) top.place)

/-- The settings of a document.  What could be read is judged before what
follows. -/
def ofDocument (document : Document) : Except Fault Settings :=
  match readDocument document, document.trouble with
  | .error fault, _ => .error fault
  | .ok _, some trouble => .error (.ofTrouble trouble)
  | .ok draft, none => draft.settings

/-- The settings of a text.  Blank text gives the defaults. -/
def ofText (text : String) : Except Fault Settings :=
  if Blank.isBlankText text then .ok Settings.default
  else
    let document := documentOf text
    match ofDocument document with
    | .ok settings => .ok settings
    | .error fault => .error { fault with isTextSound := document.trouble.isNone }

end BuildImpact.Settings
