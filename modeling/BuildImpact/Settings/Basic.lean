/-
Module: BuildImpact.Settings.Basic
Layer: Settings
Purpose: The settings of a run, and their names in a settings file.
Imports: none
Trusted boundary: none
Main exports: Settings, Settings.default, Settings.Field, Settings.Field.name,
  Settings.Field.ofName?
Open obligations: none
-/

namespace BuildImpact

/-- What a settings file can set. -/
structure Settings where
  /-- The snapshot that is used when no other one is named. -/
  graph : Option String := none
  /-- The number of units listed in each group of a report. -/
  maxDisplay : Nat := 15
  /-- Whether reports are JSON. -/
  json : Bool := false
  /-- A group lists at least one unit. -/
  maxDisplay_pos : 0 < maxDisplay := by decide
deriving Repr, DecidableEq

namespace Settings

/-- The settings of a run without a settings file. -/
def default : Settings := {}

instance : Inhabited Settings := ⟨default⟩

/-- The settings by name. -/
inductive Field where
  | graph
  | maxDisplay
  | json
deriving Repr, DecidableEq, Inhabited

namespace Field

/-- All names, in the order in which messages list them. -/
def all : List Field := [.graph, .maxDisplay, .json]

def name : Field → String
  | .graph => "graph"
  | .maxDisplay => "max-display"
  | .json => "json"

/-- The setting with a key; the spelling has to be exact. -/
def ofName? : String → Option Field
  | "graph" => some .graph
  | "max-display" => some .maxDisplay
  | "json" => some .json
  | _ => none

/-- Every key is read back. -/
@[simp] theorem ofName?_name (field : Field) : ofName? field.name = some field := by
  cases field <;> rfl

end Field

end Settings

end BuildImpact
