/-
Module: BuildImpact.Report.Text
Layer: Reports
Purpose: Reports as lines of text.
Imports: BuildImpact.Decimal.Shortest, BuildImpact.Report.Basic, BuildImpact.Report.Paint
Trusted boundary: none
Main exports: Report.Layout, Report.unitLines, Report.lines
Open obligations: none
-/
import BuildImpact.Decimal.Shortest
import BuildImpact.Report.Basic
import BuildImpact.Report.Paint

namespace BuildImpact.Report

/-- How reports are laid out. -/
structure Layout where
  isColored : Bool
  /-- The number of units listed in a group. -/
  maxDisplay : Nat
deriving Repr, DecidableEq, Inhabited

/-- A text in a paint of the layout. -/
def Layout.paint (layout : Layout) (paint : Paint) (text : String) : String :=
  paint.on layout.isColored text

/-- The mark in front of a listed unit. -/
def Layout.bullet (layout : Layout) : String := "    " ++ layout.paint .aside "•" ++ " "

/-- The lines of a group: its first units, and how many more there are.  An
empty group has a remark instead. -/
def unitLines (layout : Layout) (units : List String) (remark : String) : List String :=
  if units.isEmpty then ["    " ++ layout.paint .aside remark]
  else
    let listed := (units.take layout.maxDisplay).map (layout.bullet ++ ·)
    if layout.maxDisplay < units.length then
      let more := units.length - layout.maxDisplay
      listed ++ [layout.bullet ++ "... and " ++ Decimal.natural more ++ " more"]
    else listed

/-- What a report is about. -/
def headingLine (layout : Layout) (subject relation root : String) : String :=
  layout.paint .heading subject ++ " " ++ relation ++ " \"" ++ layout.paint .subject root ++ "\":"

/-- A number and what it counts. -/
def summaryLine (layout : Layout) (count : Nat) (remark : String) : String :=
  layout.paint .aside "Summary" ++ ": " ++ layout.paint .count (Decimal.natural count) ++ remark

/-- The lines of an impact. -/
def impactLines (layout : Layout) (root : String) (units : List String) : List String :=
  [headingLine layout "Compile impact" "of" root, ""] ++
    unitLines layout units "(a change to no other unit recompiles it)" ++
    ["", summaryLine layout units.length " units can force a recompile"]

/-- The label of a link. -/
def linkageLabel (layout : Layout) : Linkage → String
  | .compile => layout.paint .compile "Compile"
  | .reexport => layout.paint .reexport "Export"
  | .runtime => layout.paint .runtime "Runtime"

/-- The lines of one link of a closure. -/
def linkageLines (layout : Layout) (links : List (String × Linkage)) (linkage : Linkage) :
    List String :=
  let units := linkageGroup links linkage
  ["", "  " ++ linkageLabel layout linkage ++ " (" ++ Decimal.natural units.length ++ "):"] ++
    unitLines layout units "(none)"

/-- The lines of a closure, the strongest link first. -/
def closureLines (layout : Layout) (root : String) (links : List (String × Linkage)) :
    List String :=
  headingLine layout "Dependencies" "of" root ::
    Linkage.all.flatMap (linkageLines layout links)

/-- The lines of one depth. -/
def depthLines (layout : Layout) (group : Nat × List String) : List String :=
  let label := if group.1 = 1 then "direct" else "transitive"
  ("  " ++ layout.paint .depth ("Depth " ++ Decimal.natural group.1) ++ " " ++
    layout.paint .aside label ++ " (" ++ Decimal.natural group.2.length ++ "):") ::
    unitLines layout group.2 "(none)"

/-- The lines of depths, the nearest units first.  The root itself is not
counted. -/
def depthsLines (layout : Layout) (root : String) (depths : List (String × Nat)) :
    List String :=
  let groups := depthGroups depths
  [headingLine layout "Reachable units" "from" root, ""] ++
    (if groups.isEmpty then ["    " ++ layout.paint .aside "(no dependencies)"] else []) ++
    groups.flatMap (depthLines layout) ++
    ["", summaryLine layout (depths.length - 1)
      (" units (max depth: " ++ Decimal.natural (deepest depths) ++ ")")]

/-- The lines of a route: one for each unit, with an arrow before all but the
first. -/
def hopLines (layout : Layout) : List String → List String
  | [] => []
  | first :: rest =>
    let line (mark unit : String) : String :=
      "  " ++ layout.paint .aside mark ++ layout.paint .hop unit
    line "  " first :: rest.map (line "→ ")

/-- The lines of a search for a route. -/
def routeLines (layout : Layout) (source target : String) (isGated : Bool) :
    Option (List String) → List String
  | none =>
    [(if isGated then "No compile path" else "No path") ++
      " from \"" ++ layout.paint .mention source ++
      "\" to \"" ++ layout.paint .mention target ++ "\""]
  | some units =>
    [(if isGated then "Shortest compile path" else "Shortest path") ++
      " from \"" ++ layout.paint .subject source ++
      "\" to \"" ++ layout.paint .subject target ++
      "\" (" ++ Decimal.natural (units.length - 1) ++ " hops):", ""] ++ hopLines layout units

/-- The lines of one unit and the roots that it recompiles. -/
def affectedEntryLines (layout : Layout) (entry : String × List String) : List String :=
  ("  " ++ layout.paint .heading entry.1 ++ " " ++
    layout.paint .aside ("(" ++ Decimal.natural entry.2.length ++ " recompile)") ++ ":") ::
    unitLines layout entry.2 "(none)"

/-- The lines of the units that recompile others. -/
def affectedLines (layout : Layout) (roots : Nat) (entries : List (String × List String)) :
    List String :=
  if entries.isEmpty then [layout.paint .aside "No unit forces another to recompile"]
  else
    entries.flatMap (affectedEntryLines layout) ++
      ["", summaryLine layout entries.length
        (" units force a recompile across " ++ Decimal.natural roots ++ " roots")]

/-- A report as lines of text. -/
def lines (layout : Layout) : Report → List String
  | .impact root units => impactLines layout root units
  | .closure root links => closureLines layout root links
  | .depths root reached => depthsLines layout root reached
  | .route source target isGated found => routeLines layout source target isGated found
  | .affected roots entries => affectedLines layout roots entries

end BuildImpact.Report
