/-
Module: BuildImpact.Snapshot.Write
Layer: Snapshots
Purpose: Graphs as snapshot texts.
Imports: BuildImpact.Graph.Basic, BuildImpact.Json.Print, BuildImpact.Snapshot.Id
Trusted boundary: none
Main exports: WritableId, Snapshot.edgeText, Snapshot.write
Open obligations: none
-/
import BuildImpact.Graph.Basic
import BuildImpact.Json.Print
import BuildImpact.Snapshot.Id

namespace BuildImpact

/-- Units with a JSON text. -/
class WritableId (N : Type) where
  /-- The text of a unit as the key of a source. -/
  key : N → String
  /-- The text of a unit as the target of an edge. -/
  target : N → String

/-- Texts are written between quotes in both places. -/
instance : WritableId String := ⟨Json.quote, Json.quote⟩

/-- Integers are written in decimal digits, as a key between quotes. -/
instance {N : Type} [IntegerWidth N] : WritableId N where
  key number := "\"" ++ Decimal.integer (IntegerWidth.toInt number) ++ "\""
  target number := Decimal.integer (IntegerWidth.toInt number)

namespace Snapshot

variable {N : Type} [WritableId N]

/-- Texts with commas between them. -/
def commaSeparated (texts : List String) : String := String.intercalate "," texts

/-- An edge as an object. -/
def edgeText (edge : Edge N) : String :=
  "\x7b\"id\":" ++ WritableId.target edge.target ++
    ",\"type\":" ++ Json.quote edge.kind.name ++ "\x7d"

/-- A source with its edges as an entry of an object. -/
def entryText (entry : N × List (Edge N)) : String :=
  WritableId.key entry.1 ++ ":[" ++ commaSeparated (entry.2.map edgeText) ++ "]"

/-- Sources with their edges as a snapshot, in the given order and without
blanks. -/
def write (entries : List (N × List (Edge N))) : String :=
  "\x7b" ++ commaSeparated (entries.map entryText) ++ "\x7d"

end Snapshot

end BuildImpact
