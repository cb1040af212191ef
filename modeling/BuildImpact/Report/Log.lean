/-
Module: BuildImpact.Report.Log
Layer: Reports
Purpose: What a run notes about itself, and which notes are shown.
Imports: BuildImpact.Decimal.Shortest, BuildImpact.Text.Quoted
Trusted boundary: none
Main exports: LogLevel, LogLimit, LogLimit.shows, LogEvent, LogEvent.level, LogEvent.text
Open obligations: none
-/
import BuildImpact.Decimal.Shortest
import BuildImpact.Text.Quoted

namespace BuildImpact

/-- How much a note matters. -/
inductive LogLevel where
  | error
  | warn
  | info
  | debug
  | trace
deriving Repr, DecidableEq, Inhabited

namespace LogLevel

/-- The label of a note. -/
def label : LogLevel → String
  | .error => "ERROR"
  | .warn => "WARN"
  | .info => "INFO"
  | .debug => "DEBUG"
  | .trace => "TRACE"

/-- The rank of a level, the most important one first. -/
def rank : LogLevel → Nat
  | .error => 1
  | .warn => 2
  | .info => 3
  | .debug => 4
  | .trace => 5

end LogLevel

/-- The least important notes that are shown; none at all without a level. -/
structure LogLimit where
  level : Option LogLevel
deriving Repr, DecidableEq, Inhabited

namespace LogLimit

/-- No note is shown. -/
def off : LogLimit := ⟨none⟩

/-- Each request for more notes shows one more level. -/
def ofVerbosity : Nat → LogLimit
  | 0 => ⟨some .warn⟩
  | 1 => ⟨some .info⟩
  | 2 => ⟨some .debug⟩
  | _ => ⟨some .trace⟩

/-- The limit with a name, in capital or small letters. -/
def ofName? (name : String) : Option LogLimit :=
  match String.ofList (name.toList.map Char.toLower) with
  | "off" => some off
  | "error" => some ⟨some .error⟩
  | "warn" => some ⟨some .warn⟩
  | "info" => some ⟨some .info⟩
  | "debug" => some ⟨some .debug⟩
  | "trace" => some ⟨some .trace⟩
  | _ => none

/-- Whether notes of a level are shown. -/
def shows (limit : LogLimit) (level : LogLevel) : Bool :=
  match limit.level with
  | none => false
  | some least => level.rank ≤ least.rank

end LogLimit

/-- A note. -/
inductive LogEvent where
  | defaultSettings (directory : String)
  | settingsRead (path : String)
  | graphRead (path : String) (sources edges : Nat)
  | unknownUnit (unit : String)
  | impactFound (root : String) (size : Nat)
  | rootExpandedAgain (root : String)
  | closureFound (root : String) (size : Nat)
  | depthsFound (root : String) (size : Nat)
  | routeSearched (source target : String) (isGated : Bool) (visited : Nat) (hops : Option Nat)
  | allUnitsChosen (roots : Nat)
  | impactsInverted (roots units : Nat)
deriving Repr, DecidableEq, Inhabited

namespace LogEvent

/-- How much each note matters. -/
def level : LogEvent → LogLevel
  | .unknownUnit _ => .warn
  | .allUnitsChosen _ => .info
  | .rootExpandedAgain _ => .trace
  | _ => .debug

/-- A text as a field of a note. -/
def textField (name text : String) : String := " " ++ name ++ "=" ++ Quoted.encode text

/-- A number as a field of a note. -/
def numberField (name : String) (value : Nat) : String :=
  " " ++ name ++ "=" ++ Decimal.natural value

/-- The wording of each note; paths stand without quotes. -/
def message : LogEvent → String
  | .defaultSettings directory => "No config file found, using defaults dir=" ++ directory
  | .settingsRead path => "Loaded configuration path=" ++ path
  | .graphRead path sources edges =>
    "Loaded dependency graph path=" ++ path ++ numberField "sources" sources ++
      numberField "edges" edges
  | .unknownUnit unit => "Unit does not appear in the graph" ++ textField "unit" unit
  | .impactFound root size =>
    "Computed compile impact" ++ textField "root" root ++ numberField "affected" size
  | .rootExpandedAgain root =>
    "Re-expanding root as a compile dependency" ++ textField "unit" root
  | .closureFound root size =>
    "Computed typed closure" ++ textField "root" root ++ numberField "reachable" size
  | .depthsFound root size =>
    "Computed depth map" ++ textField "root" root ++ numberField "reachable" size
  | .routeSearched source target isGated visited hops =>
    "Searched for shortest path" ++ textField "source" source ++ textField "target" target ++
      " gated=" ++ (if isGated then "true" else "false") ++ numberField "visited" visited ++
      (match hops with
      | none => ""
      | some hops => numberField "hops" hops)
  | .allUnitsChosen roots =>
    "No units given, analyzing the whole graph" ++ numberField "roots" roots
  | .impactsInverted roots units =>
    "Inverted compile impact" ++ numberField "roots" roots ++ numberField "affected" units

/-- A note as a line. -/
def text (event : LogEvent) : String := event.level.label ++ " " ++ event.message

end LogEvent

end BuildImpact
