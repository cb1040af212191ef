/-
Module: BuildImpact.Yaml.Document
Layer: YAML
Purpose: The first document of a text: its top node, the entries of that where it is a
  mapping, and what is wrong with the text behind what could be read.
Imports: BuildImpact.Yaml.Token
Trusted boundary: none
Main exports: Yaml.Content, Yaml.Node, Yaml.Entry, Yaml.Trouble, Yaml.Document, Yaml.documentOf
Open obligations: none
-/
import BuildImpact.Yaml.Token

namespace BuildImpact.Yaml

/-- What a node is.  What a collection holds is no part of it. -/
inductive Content where
  /-- A scalar; the tag is given in full. -/
  | scalar (text : String) (style : Style) (tag : Option String)
  | sequence
  | mapping
deriving Repr, DecidableEq, Inhabited

/-- A node and the place where it begins, with its anchor and tag. -/
structure Node where
  content : Content
  place : Place
deriving Repr, DecidableEq, Inhabited

/-- An entry of a mapping. -/
structure Entry where
  key : Node
  /-- Whether the key is written here, and not an alias. -/
  isKeyWritten : Bool
  value : Node
deriving Repr, DecidableEq, Inhabited

/-- What keeps a text from being one document. -/
inductive Trouble where
  /-- The text is not YAML. -/
  | malformed
  /-- An alias has a name that no anchor has before it. -/
  | unknownAnchor (place : Place)
  /-- Something follows the document. -/
  | severalDocuments
deriving Repr, DecidableEq, Inhabited

/-- A document, as far as it could be read. -/
structure Document where
  /-- The top node, if it was reached. -/
  top : Option Node
  /-- The entries of the top node, where that is a mapping. -/
  entries : List Entry
  /-- The key whose value was not reached. -/
  openKey : Option Node
  /-- What ended the reading too early, or what stands behind the document. -/
  trouble : Option Trouble
deriving Repr, DecidableEq, Inhabited

/-! ### Tags in full -/

/-- What handles stand for. -/
abbrev Handles := List (String × String)

/-- The handles that need no directive. -/
def standardHandles : Handles := [("!", "!"), ("!!", "tag:yaml.org,2002:")]

/-- A part of a tag as it counts: what follows a zero octet does not. -/
def untilZero (part : String) : String :=
  String.ofList (part.toList.takeWhile (· != '\x00'))

/-- A tag in full, if its handle is known. -/
def Tag.full? (handles : Handles) (tag : Tag) : Option String :=
  if tag.handle.isEmpty then some (untilZero tag.suffix)
  else (handles.lookup tag.handle).map fun stem => untilZero stem ++ untilZero tag.suffix

/-! ### The course of reading -/

/-- A node where it is written, or an alias in its place. -/
inductive Mention where
  | written (node : Node)
  | alias (number : Nat)
deriving Repr, DecidableEq, Inhabited

/-- A mention, and the number of collections around it. -/
structure Occurrence where
  depth : Nat
  mention : Mention
deriving Repr, DecidableEq, Inhabited

/-- What is left to read, and what has been met.

An anchor is numbered by the names met before it, each counted once, and takes
its number also where it is given again.  Two names can so come to share a
number.  An alias stands for the last node of the document that its number was
given to, which may come after the alias. -/
structure Course where
  left : List Token
  /-- All nodes and aliases, the latest first. -/
  met : List Occurrence
  /-- The number of each name. -/
  numbers : List (String × Nat)
  /-- The nodes that numbers were given to, the latest first. -/
  numbered : List (Nat × Node)
deriving Repr, Inhabited

/-- A step of reading: where it leads, or where it ends and why. -/
abbrev Step := Except (Trouble × Course) Course

namespace Course

def start (tokens : List Token) : Course := ⟨tokens, [], [], []⟩

def kind (course : Course) : TokenKind := (course.left.head?.map (·.kind)).getD .unreadable

/-- The place where the next token begins. -/
def place (course : Course) : Place := (course.left.head?.map (·.start)).getD ⟨0, 0⟩

def stop (course : Course) : Place := (course.left.head?.map (·.stop)).getD ⟨0, 0⟩

def rest (course : Course) : Course := { course with left := course.left.tail }

/-- Whether the next token is one of the given kinds. -/
def at? (course : Course) (kinds : List TokenKind) : Bool := kinds.elem course.kind

/-- What stands here cannot stand here. -/
def fail (course : Course) : Step := .error (.malformed, course)

/-- Give a node the number of its anchor. -/
def define (course : Course) (anchor : Option String) (node : Node) : Course :=
  match anchor with
  | none => course
  | some name =>
    let number := course.numbers.length
    { course with
      numbers := (name, number) :: course.numbers.filter (·.1 != name)
      numbered := (number, node) :: course.numbered }

/-- Meet a node that is written here. -/
def write (course : Course) (depth : Nat) (anchor : Option String) (node : Node) : Course :=
  { course.define anchor node with met := ⟨depth, .written node⟩ :: course.met }

def refer (course : Course) (depth number : Nat) : Course :=
  { course with met := ⟨depth, .alias number⟩ :: course.met }

end Course

/-- A node that nothing is written for. -/
def emptyNode (place : Place) : Node := ⟨.scalar "" .plain none, place⟩

/-- Meet the empty node in front of a token that begins none. -/
def readNothing (depth : Nat) (place : Place) (course : Course) : Step :=
  if course.at? [.unreadable] then course.fail
  else .ok (course.write depth none (emptyNode place))

/-- An anchor and a tag, in either order and each optional. -/
def readProperties (course : Course) : Option String × Option Tag × Course :=
  match course.kind, course.rest.kind with
  | .anchor name, .tag tag => (some name, some tag, course.rest.rest)
  | .tag tag, .anchor name => (some name, some tag, course.rest.rest)
  | .anchor name, _ => (some name, none, course.rest)
  | .tag tag, _ => (none, some tag, course.rest)
  | _, _ => (none, none, course)

/-! ### Nodes -/

mutual

/-- Read a node.  Blocks may begin only where `inBlock` holds; a sequence that
is not indented, only where `allowsDash` holds. -/
def readNode (handles : Handles) (inBlock allowsDash : Bool) : Nat → Nat → Course → Step
  | 0, _, course => course.fail
  | fuel + 1, depth, course =>
    match course.kind with
    | .alias name =>
      match course.numbers.lookup name with
      | none => .error (.unknownAnchor course.place, course)
      | some number => .ok (course.rest.refer depth number)
    | _ =>
      let place := course.place
      let (anchor, tag, course) := readProperties course
      let full := match tag with
        | none => some none
        | some tag => (tag.full? handles).map some
      match full with
      | none => course.fail
      | some full =>
        let write (content : Content) (course : Course) :=
          course.write depth anchor ⟨content, place⟩
        match course.kind with
        | .scalar text style => .ok (write (.scalar text style full) course.rest)
        | .flowSequence =>
          readFlowItems handles true fuel (depth + 1) (write .sequence course.rest)
        | .flowMapping =>
          readFlowEntries handles true fuel (depth + 1) (write .mapping course.rest)
        | kind =>
          if kind == .dash && allowsDash then
            readItems handles false fuel (depth + 1) (write .sequence course)
          else if kind == .blockSequence && inBlock then
            readItems handles true fuel (depth + 1) (write .sequence course.rest)
          else if kind == .blockMapping && inBlock then
            readEntries handles fuel (depth + 1) (write .mapping course.rest)
          else if kind != .unreadable && (anchor.isSome || tag.isSome) then
            .ok (write (.scalar "" .plain full) course)
          else course.fail
termination_by structural fuel => fuel

/-- Read a node, or nothing in front of one of the kinds in `enders`; then the
empty node stands at `place`. -/
def readNodeOr (handles : Handles) (inBlock allowsDash : Bool) (enders : List TokenKind) :
    Nat → Nat → Place → Course → Step
  | 0, _, _, course => course.fail
  | fuel + 1, depth, place, course =>
    if course.at? enders then readNothing depth place course
    else readNode handles inBlock allowsDash fuel depth course
termination_by structural fuel => fuel

/-- Read the items of a sequence with dashes.  An indented one has an end. -/
def readItems (handles : Handles) (isIndented : Bool) : Nat → Nat → Course → Step
  | 0, _, course => course.fail
  | fuel + 1, depth, course =>
    if course.at? [.dash] then do
      let enders := if isIndented then [.dash, .blockEnd] else [.dash, .key, .value, .blockEnd]
      let course ← readNodeOr handles true false enders fuel depth course.stop course.rest
      readItems handles isIndented fuel depth course
    else if !isIndented then .ok course
    else if course.at? [.blockEnd] then .ok course.rest
    else course.fail
termination_by structural fuel => fuel

/-- Read the entries of a block mapping and its end.  What is missing stands
behind the indicator before it. -/
def readEntries (handles : Handles) : Nat → Nat → Course → Step
  | 0, _, course => course.fail
  | fuel + 1, depth, course =>
    if course.at? [.blockEnd] then .ok course.rest
    else if course.at? [.key] then do
      let enders := [.key, .value, .blockEnd]
      let course ← readNodeOr handles true true enders fuel depth course.stop course.rest
      let course ←
        if course.at? [.value] then
          readNodeOr handles true true enders fuel depth course.stop course.rest
        else readNothing depth course.place course
      readEntries handles fuel depth course
    else course.fail
termination_by structural fuel => fuel

/-- Read the rest of an entry inside brackets from its colon on. -/
def readFlowValue (handles : Handles) (closing : TokenKind) : Nat → Nat → Course → Step
  | 0, _, course => course.fail
  | fuel + 1, depth, course =>
    if course.at? [.value] then
      readNodeOr handles false false [.comma, closing] fuel depth course.rest.place course.rest
    else readNothing depth course.place course
termination_by structural fuel => fuel

/-- Read the items between brackets and the closing bracket.  An item may be a
single entry of a mapping. -/
def readFlowItems (handles : Handles) (isFirst : Bool) : Nat → Nat → Course → Step
  | 0, _, course => course.fail
  | fuel + 1, depth, course =>
    if course.at? [.flowSequenceEnd] then .ok course.rest
    else if !isFirst && !course.at? [.comma] then course.fail
    else
      let course := if isFirst then course else course.rest
      if course.at? [.flowSequenceEnd] then .ok course.rest
      else if course.at? [.key] then do
        let course := course.write depth none ⟨.mapping, course.place⟩
        -- The token after a missing key is lost.
        let isMissing := course.rest.at? [.value, .comma, .flowSequenceEnd]
        let course ←
          if isMissing then
            readNothing (depth + 1) course.rest.stop course.rest.rest
          else readNode handles false false fuel (depth + 1) course.rest
        let course ← readFlowValue handles .flowSequenceEnd fuel (depth + 1) course
        readFlowItems handles false fuel depth course
      else do
        let course ← readNode handles false false fuel depth course
        readFlowItems handles false fuel depth course
termination_by structural fuel => fuel

/-- Read the entries between braces and the closing brace. -/
def readFlowEntries (handles : Handles) (isFirst : Bool) : Nat → Nat → Course → Step
  | 0, _, course => course.fail
  | fuel + 1, depth, course =>
    if course.at? [.flowMappingEnd] then .ok course.rest
    else if !isFirst && !course.at? [.comma] then course.fail
    else
      let course := if isFirst then course else course.rest
      if course.at? [.flowMappingEnd] then .ok course.rest
      else do
        let hasKey := course.at? [.key]
        let course := if hasKey then course.rest else course
        let enders := if hasKey then [.value, .comma, .flowMappingEnd] else []
        let course ← readNodeOr handles false false enders fuel depth course.place course
        let course ←
          if hasKey then readFlowValue handles .flowMappingEnd fuel depth course
          else readNothing depth course.place course
        readFlowEntries handles false fuel depth course
termination_by structural fuel => fuel

end

/-! ### Documents -/

/-- Read the directives before a document.  A version is given once, and so is
each handle; only versions 1.1 and 1.2 are known. -/
def readDirectives : Bool → Handles → List Token → Option (Handles × List Token)
  | hasVersion, handles, token :: tokens =>
    match token.kind with
    | .directive (.version major minor) =>
      if hasVersion || major ≠ 1 || (minor ≠ 1 && minor ≠ 2) then none
      else readDirectives true handles tokens
    | .directive (.handle handle stem) =>
      if (handles.lookup handle).isSome then none
      else readDirectives hasVersion ((handle, stem) :: handles) tokens
    | _ => some (handles, token :: tokens)
  | _, handles, [] => some (handles, [])

/-- Read the node of a document from the first token behind its start on. -/
def readTop (handles : Handles) (isExplicit : Bool) (course : Course) : Step :=
  let isEmpty := match course.kind with
    | .directive _ | .documentStart | .documentEnd | .textEnd => true
    | _ => false
  if isExplicit && isEmpty then readNothing 0 course.place course
  else
    let fuel := 2 * course.left.length + 2
    readNode (handles ++ standardHandles) true false fuel 0 course

/-- Read a document from its directives on.  Where there is nothing at all, the
document is the empty node. -/
def readDocument (tokens : List Token) : Step :=
  let course := Course.start tokens
  match course.kind with
  | .textEnd => .ok (course.write 0 none (emptyNode ⟨0, 0⟩))
  | .directive _ | .documentStart =>
    match readDirectives false [] tokens with
    | some (handles, token :: tokens) =>
      if token.kind == .documentStart then readTop handles true (Course.start tokens)
      else course.fail
    | _ => course.fail
  | _ => readTop [] false course

/-- What is wrong behind a document: only end markers may follow it. -/
def Course.trouble (course : Course) : Option Trouble :=
  if course.at? [.unreadable] then some .malformed
  else
    match course.left.dropWhile (·.kind == .documentEnd) with
    | [token] => if token.kind == .textEnd then none else some .severalDocuments
    | _ => some .severalDocuments

/-- The node that a mention stands for. -/
def Course.node (course : Course) : Mention → Node
  | .written node => node
  | .alias number => (course.numbered.lookup number).getD (emptyNode ⟨0, 0⟩)

/-- Keys and values in turn as entries, with the key that has no value. -/
def Course.entries (course : Course) : List Mention → List Entry × Option Node
  | key :: value :: mentions =>
    let (entries, openKey) := course.entries mentions
    let isWritten := key matches .written _
    (⟨course.node key, isWritten, course.node value⟩ :: entries, openKey)
  | [key] => ([], some (course.node key))
  | [] => ([], none)

/-- What has been met as a document. -/
def Course.document (course : Course) (trouble : Option Trouble) : Document :=
  let mentions (depth : Nat) :=
    (course.met.reverse.filter (·.depth == depth)).map (·.mention)
  let (entries, openKey) := course.entries (mentions 1)
  ⟨(mentions 0).head?.map course.node, entries, openKey, trouble⟩

/-- The document that a list of tokens begins with. -/
def Document.ofTokens (tokens : List Token) : Document :=
  match readDocument tokens with
  | .ok course => course.document course.trouble
  | .error (trouble, course) => course.document (some trouble)

def documentOf (text : String) : Document := Document.ofTokens (tokensOf text)

end BuildImpact.Yaml
