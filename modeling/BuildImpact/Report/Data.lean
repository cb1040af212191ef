/-
Module: BuildImpact.Report.Data
Layer: Reports
Purpose: Reports as JSON.
Imports: BuildImpact.Json.Print, BuildImpact.Report.Basic
Trusted boundary: none
Main exports: Report.value, Report.json
Open obligations: none
-/
import BuildImpact.Json.Print
import BuildImpact.Report.Basic

namespace BuildImpact.Report

/-- Units as a list. -/
def unitsValue (units : List String) : Json.Value := .list (units.map .string)

/-- A report as a JSON value: lists of units, and objects with a unit for each
key; no route is `null`. -/
def value : Report → Json.Value
  | .impact _ units => unitsValue units
  | .closure _ links => .object (links.map fun entry => (entry.1, .string entry.2.name))
  | .depths _ reached => .object (reached.map fun entry => (entry.1, .number entry.2))
  | .route _ _ _ none => .null
  | .route _ _ _ (some units) => unitsValue units
  | .affected _ entries => .object (entries.map fun entry => (entry.1, unitsValue entry.2))

/-- A report as JSON text. -/
def json (report : Report) : String := report.value.pretty 0

end BuildImpact.Report
