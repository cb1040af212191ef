/-
Module: BuildImpact.Settings.Fault
Layer: Settings
Purpose: What can be wrong with settings, where, and how it is worded.
Imports: BuildImpact.Settings.Basic, BuildImpact.Yaml.Value
Trusted boundary: none
Main exports: Settings.Found, Settings.Wanted, Settings.Problem, Settings.Fault,
  Settings.Fault.ofTrouble, Settings.Fault.message
Open obligations: none
-/
import BuildImpact.Settings.Basic
import BuildImpact.Yaml.Value

namespace BuildImpact.Settings

/-- What stood where something else was wanted. -/
inductive Found where
  | value (held : Yaml.Value)
  | sequence
  | mapping
  /-- A text that does not fit its tag. -/
  | mistagged (text : String) (tag : Yaml.CoreTag)
deriving Repr, Inhabited

inductive Wanted where
  | settings
  | fieldName
  | path
  | count
  | boolean
deriving Repr, DecidableEq, Inhabited

def Wanted.message : Wanted → String
  | .settings => "struct Config"
  | .fieldName => "field identifier"
  | .path => "path string"
  | .count => "usize"
  | .boolean => "a boolean"

/-- The wording of what a tag asks for. -/
def tagMessage : Yaml.CoreTag → String
  | .boolean => "a boolean"
  | .integer => "an integer"
  | .float => "a float"
  | .null => "null"

/-- The wording of one thing standing where another one was wanted.  A text that
does not fit its tag is at fault whatever was wanted. -/
def Found.message (found : Found) (wanted : Wanted) : String :=
  match found with
  | .value held => "invalid type: " ++ held.message ++ ", expected " ++ wanted.message
  | .sequence => "invalid type: sequence, expected " ++ wanted.message
  | .mapping => "invalid type: map, expected " ++ wanted.message
  | .mistagged text tag =>
    "invalid value: string " ++ Quoted.encode text ++ ", expected " ++ tagMessage tag

/-- Ways in which settings are wrong. -/
inductive Problem where
  /-- The text is not one YAML document. -/
  | unreadable (trouble : Yaml.Trouble)
  /-- Something has the wrong type.  `label` names the entry whose value it
  is; it is empty for what is no value. -/
  | wrongType (label : String) (found : Found) (wanted : Wanted)
  | unknownField (name : String)
  | duplicateField (field : Field)
  /-- A group would list no unit at all. -/
  | zeroMaxDisplay
  /-- Neither the command line nor the settings name a snapshot. -/
  | noGraph
deriving Repr, Inhabited

/-- The wording of what keeps a text from being one document. -/
def troubleMessage : Yaml.Trouble → String
  | .malformed => "the text is not well formed"
  | .unknownAnchor _ => "unknown anchor"
  | .severalDocuments =>
    "deserializing from YAML containing more than one document is not supported"

def Problem.message : Problem → String
  | .unreadable trouble => troubleMessage trouble
  | .wrongType label found wanted =>
    (if label.isEmpty then "" else label ++ ": ") ++ found.message wanted
  | .unknownField name =>
    "unknown field `" ++ name ++ "`, expected one of " ++
      String.intercalate ", " (Field.all.map fun field => "`" ++ field.name ++ "`")
  | .duplicateField field => "duplicate field `" ++ field.name ++ "`"
  | .zeroMaxDisplay => "max-display must be at least 1"
  | .noGraph => "no graph snapshot given; pass --graph or set `graph` in ripple.yaml"

/-- A problem, the place where it shows and the file that it shows in. -/
structure Fault where
  problem : Problem
  place : Option Yaml.Place
  file : Option String
  /-- Whether the text as a whole is one YAML document.  A problem of another
  kind may show before the text turns out not to be one. -/
  isTextSound : Bool
deriving Repr, Inhabited

namespace Fault

/-- A problem of no particular place. -/
def general (problem : Problem) : Fault := ⟨problem, none, none, true⟩

/-- A problem with a place. -/
def placed (problem : Problem) (place : Yaml.Place) : Fault := ⟨problem, some place, none, true⟩

/-- What keeps a text from being one document. -/
def ofTrouble (trouble : Yaml.Trouble) : Fault :=
  match trouble with
  | .unknownAnchor place => placed (.unreadable trouble) place
  | _ => general (.unreadable trouble)

/-- The wording of a place, which counts lines and columns from one; the very
beginning of a text is not mentioned. -/
def placeMessage (place : Yaml.Place) : String :=
  if place = ⟨0, 0⟩ then ""
  else
    " at line " ++ Decimal.natural (place.line + 1) ++
      " column " ++ Decimal.natural (place.column + 1)

/-- The wording of a fault, with its file in front and its place behind. -/
def message (fault : Fault) : String :=
  (match fault.file with
    | none => ""
    | some file => file ++ ": ") ++
    fault.problem.message ++
    (match fault.place with
    | none => ""
    | some place => placeMessage place)

end Fault

end BuildImpact.Settings
