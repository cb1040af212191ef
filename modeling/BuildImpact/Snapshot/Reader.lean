/-
Module: BuildImpact.Snapshot.Reader
Layer: Snapshots
Purpose: The entries of a snapshot as its text gives them, edge kinds unjudged.
Imports: BuildImpact.Json.Expect, BuildImpact.Json.Skip, BuildImpact.Snapshot.Id
Trusted boundary: none
Main exports: Snapshot.WrittenEdge, Snapshot.readEdge, Snapshot.readEdges,
  Snapshot.readEntries, Snapshot.readDocument
Open obligations: none
-/
import BuildImpact.Json.Expect
import BuildImpact.Json.Skip
import BuildImpact.Snapshot.Id

namespace BuildImpact.Snapshot

open Json

/-!
A snapshot is an object from units to lists of edges.  An edge is an object
with an `id` and a `type`, in any order and among any other fields, or a list
of the two.  The names of the kinds are kept as written until the whole text
has been read.
-/

variable {N : Type} [SnapshotId N]

/-- An edge whose kind has not been judged. -/
structure WrittenEdge (N : Type) where
  target : N
  kindName : String
deriving Repr, DecidableEq, Inhabited

/-- The fields of an edge that have been read. -/
structure Fields (N : Type) where
  target : Option N
  kindName : Option String
deriving Repr, DecidableEq, Inhabited

/-- An edge from its fields; both have to be there. -/
def Fields.complete (fields : Fields N) (rest : List UInt8) : Reading (WrittenEdge N) :=
  match fields.target, fields.kindName with
  | none, _ => mismatch (.missingField "id") rest .read
  | some _, none => mismatch (.missingField "type") rest .read
  | some target, some kindName => .ok (⟨target, kindName⟩, rest)

/-- The failure for a field that is there already.  The reader still looks for
the end of the object, and the place of the failure is where that leaves it. -/
def duplicateField {α : Type} (name : String) (bytes : List UInt8) : Except Failure α :=
  match skipBlanks bytes with
  | [] => mismatch (.duplicateField name) [] .read
  | first :: rest =>
    if first == 0x7d then mismatch (.duplicateField name) rest .read
    else mismatch (.duplicateField name) (first :: rest) .glimpsed

/-- Read the value of the field with the given name, and keep it if an edge has
such a field. -/
def readField (fields : Fields N) (name : String) (bytes : List UInt8) : Reading (Fields N) :=
  if name == "id" then
    if fields.target.isSome then duplicateField name bytes
    else
      match readColon bytes with
      | .error failure => .error failure
      | .ok rest =>
        match SnapshotId.readTarget rest with
        | .error failure => .error failure
        | .ok (target, rest) => .ok ({ fields with target := some target }, rest)
  else if name == "type" then
    if fields.kindName.isSome then duplicateField name bytes
    else
      match readColon bytes with
      | .error failure => .error failure
      | .ok rest =>
        match readText rest with
        | .error failure => .error failure
        | .ok (kindName, rest) => .ok ({ fields with kindName := some kindName }, rest)
  else
    match readColon bytes with
    | .error failure => .error failure
    | .ok rest =>
      match skipValue rest with
      | .error failure => .error failure
      | .ok rest => .ok (fields, rest)

theorem duplicateField_ne_ok {α : Type} {name : String} {bytes : List UInt8} {value : α} :
    duplicateField name bytes ≠ .ok value := by
  unfold duplicateField
  split
  · intro taken
    cases taken
  · split <;> intro taken <;> cases taken

theorem length_of_readField {fields read : Fields N} {name : String} {bytes rest : List UInt8}
    (taken : readField fields name bytes = .ok (read, rest)) : rest.length < bytes.length := by
  unfold readField at taken
  split at taken
  · split at taken
    · exact absurd taken duplicateField_ne_ok
    · split at taken
      · cases taken
      · rename_i afterColon colon
        have := length_of_readColon colon
        split at taken
        · cases taken
        · rename_i target
          cases taken
          have := SnapshotId.length_of_readTarget target
          omega
  · split at taken
    · split at taken
      · exact absurd taken duplicateField_ne_ok
      · split at taken
        · cases taken
        · rename_i afterColon colon
          have := length_of_readColon colon
          split at taken
          · cases taken
          · rename_i kindName
            cases taken
            have := length_of_readText kindName
            omega
    · split at taken
      · cases taken
      · rename_i afterColon colon
        have := length_of_readColon colon
        split at taken
        · cases taken
        · rename_i value
          cases taken
          have := length_of_skipValue value
          omega

/-- Read the fields of an edge up to its end. -/
def readFields (fields : Fields N) (isFirst : Bool) (bytes : List UInt8) :
    Reading (WrittenEdge N) :=
  match _opened : nextKey isFirst bytes with
  | .error failure => .error failure
  | .ok (.closed rest) => fields.complete rest
  | .ok (.item key) =>
    match _named : readString key with
    | .error failure => .error failure
    | .ok (name, value) =>
      match _taken : readField fields name value with
      | .error failure => .error failure
      | .ok (fields, rest) => readFields fields false rest
termination_by bytes.length
decreasing_by
  have := length_of_nextKey _opened
  have := length_of_readString _named
  have := length_of_readField _taken
  omega

/-- Read an edge that is written as a list, behind its opening bracket. -/
def readPair (bytes : List UInt8) : Reading (WrittenEdge N) :=
  match nextItem true bytes with
  | .error failure => .error failure
  | .ok (.closed rest) => mismatch (.shortEdge 0) rest .read
  | .ok (.item rest) =>
    match SnapshotId.readTarget rest with
    | .error failure => .error failure
    | .ok (target, rest) =>
      match nextItem false rest with
      | .error failure => .error failure
      | .ok (.closed rest) => mismatch (.shortEdge 1) rest .read
      | .ok (.item rest) =>
        match readText rest with
        | .error failure => .error failure
        | .ok (kindName, rest) =>
          match closeList rest with
          | .error failure => .error failure
          | .ok rest => .ok (⟨target, kindName⟩, rest)

/-- Read an edge in either form. -/
def readEdge (bytes : List UInt8) : Reading (WrittenEdge N) :=
  match skipBlanks bytes with
  | [] => malformed .endInValue [] .read
  | first :: rest =>
    if first == 0x5b then readPair rest
    else if first == 0x7b then readFields ⟨none, none⟩ true rest
    else .error (inPlaceOf .edge (first :: rest))

theorem length_of_readFields {fields : Fields N} {isFirst : Bool} {bytes rest : List UInt8}
    {edge : WrittenEdge N} (taken : readFields fields isFirst bytes = .ok (edge, rest)) :
    rest.length < bytes.length := by
  fun_induction readFields fields isFirst bytes with
  | case1 => cases taken
  | case2 fields isFirst bytes after closed =>
      have := length_of_nextKey_closed closed
      unfold Fields.complete at taken
      split at taken
      · cases taken
      · cases taken
      · cases taken
        omega
  | case3 => cases taken
  | case4 => cases taken
  | case5 fields isFirst bytes key opened name value named fields after field ih =>
      have := ih taken
      have := length_of_nextKey opened
      have := length_of_readString named
      have := length_of_readField field
      omega

theorem length_of_readPair {bytes rest : List UInt8} {edge : WrittenEdge N}
    (taken : readPair bytes = .ok (edge, rest)) : rest.length < bytes.length := by
  unfold readPair at taken
  split at taken
  · cases taken
  · cases taken
  · rename_i afterOpen opened
    have := length_of_nextItem opened
    split at taken
    · cases taken
    · rename_i afterTarget target
      have := SnapshotId.length_of_readTarget target
      split at taken
      · cases taken
      · cases taken
      · rename_i afterComma comma
        have := length_of_nextItem comma
        split at taken
        · cases taken
        · rename_i afterKind kind
          have := length_of_readText kind
          split at taken
          · cases taken
          · rename_i closed
            cases taken
            have := length_of_closeList closed
            omega

theorem length_of_readEdge {bytes rest : List UInt8} {edge : WrittenEdge N}
    (taken : readEdge bytes = .ok (edge, rest)) : rest.length < bytes.length := by
  unfold readEdge at taken
  have blanks := length_skipBlanks_le bytes
  split at taken
  · cases taken
  · rename_i first after split
    rw [split, List.length_cons] at blanks
    split at taken
    · have := length_of_readPair taken
      omega
    · split at taken
      · have := length_of_readFields taken
        omega
      · cases taken

/-- Read the edges of a list up to its end.  Those read before stand in
`gathered`, the last one first. -/
def readItems (gathered : List (WrittenEdge N)) (bytes : List UInt8) :
    Reading (List (WrittenEdge N)) :=
  match _opened : nextItem gathered.isEmpty bytes with
  | .error failure => .error failure
  | .ok (.closed rest) => .ok (gathered.reverse, rest)
  | .ok (.item item) =>
    match _taken : readEdge item with
    | .error failure => .error failure
    | .ok (edge, rest) => readItems (edge :: gathered) rest
termination_by bytes.length
decreasing_by
  have := length_of_nextItem _opened
  have := length_of_readEdge _taken
  omega

/-- Read the list of edges of one source. -/
def readEdges (bytes : List UInt8) : Reading (List (WrittenEdge N)) :=
  match skipBlanks bytes with
  | [] => malformed .endInValue [] .read
  | first :: rest =>
    if first == 0x5b then readItems [] rest
    else .error (inPlaceOf .sequence (first :: rest))

theorem length_of_readItems {gathered edges : List (WrittenEdge N)} {bytes rest : List UInt8}
    (taken : readItems gathered bytes = .ok (edges, rest)) : rest.length < bytes.length := by
  fun_induction readItems gathered bytes with
  | case1 => cases taken
  | case2 gathered bytes after closed =>
      cases taken
      exact length_of_nextItem_closed closed
  | case3 => cases taken
  | case4 gathered bytes item opened edge after read ih =>
      have := ih taken
      have := length_of_nextItem opened
      have := length_of_readEdge read
      omega

theorem length_of_readEdges {edges : List (WrittenEdge N)} {bytes rest : List UInt8}
    (taken : readEdges bytes = .ok (edges, rest)) : rest.length < bytes.length := by
  unfold readEdges at taken
  have blanks := length_skipBlanks_le bytes
  split at taken
  · cases taken
  · rename_i first after split
    rw [split, List.length_cons] at blanks
    split at taken
    · have := length_of_readItems taken
      omega
    · cases taken

/-- A source with its edges, as one entry of a snapshot gives them. -/
abbrev Entry (N : Type) := N × List (WrittenEdge N)

/-- Read an entry behind the opening quote of its key. -/
def readEntry (bytes : List UInt8) : Reading (Entry N) :=
  match SnapshotId.readKey bytes with
  | .error failure => .error failure
  | .ok (source, rest) =>
    match readColon rest with
    | .error failure => .error failure
    | .ok rest =>
      match readEdges rest with
      | .error failure => .error failure
      | .ok (edges, rest) => .ok ((source, edges), rest)

theorem length_of_readEntry {entry : Entry N} {bytes rest : List UInt8}
    (taken : readEntry bytes = .ok (entry, rest)) : rest.length < bytes.length := by
  unfold readEntry at taken
  split at taken
  · cases taken
  · rename_i afterKey key
    have := SnapshotId.length_of_readKey key
    split at taken
    · cases taken
    · rename_i afterColon colon
      have := length_of_readColon colon
      split at taken
      · cases taken
      · rename_i edges
        cases taken
        have := length_of_readEdges edges
        omega

/-- Read the entries of a snapshot up to its end.  Those read before stand in
`gathered`, the last one first. -/
def readEntries (gathered : List (Entry N)) (bytes : List UInt8) : Reading (List (Entry N)) :=
  match _opened : nextKey gathered.isEmpty bytes with
  | .error failure => .error failure
  | .ok (.closed rest) => .ok (gathered.reverse, rest)
  | .ok (.item item) =>
    match _taken : readEntry item with
    | .error failure => .error failure
    | .ok (entry, rest) => readEntries (entry :: gathered) rest
termination_by bytes.length
decreasing_by
  have := length_of_nextKey _opened
  have := length_of_readEntry _taken
  omega

/-- Read a whole snapshot: its entries in their order, repeated keys included. -/
def readDocument (bytes : List UInt8) : Except Failure (List (Entry N)) :=
  match skipBlanks bytes with
  | [] => malformed .endInValue [] .read
  | first :: rest =>
    if first == 0x7b then
      match readEntries [] rest with
      | .error failure => .error failure
      | .ok (entries, rest) =>
        match readEnd rest with
        | .error failure => .error failure
        | .ok () => .ok entries
    else .error (inPlaceOf .map (first :: rest))

end BuildImpact.Snapshot
