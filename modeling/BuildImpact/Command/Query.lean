/-
Module: BuildImpact.Command.Query
Layer: Command line
Purpose: Queries about a graph, their reports, and what is noted on the way.
Imports: BuildImpact.Graph.Affected, BuildImpact.Graph.Closure, BuildImpact.Graph.Depths,
  BuildImpact.Graph.Route, BuildImpact.Report.Basic, BuildImpact.Report.Log
Trusted boundary: none
Main exports: Query, Query.report, Query.notices, Query.findings, Query.events
Open obligations: none
-/
import BuildImpact.Graph.Affected
import BuildImpact.Graph.Closure
import BuildImpact.Graph.Depths
import BuildImpact.Graph.Route
import BuildImpact.Report.Basic
import BuildImpact.Report.Log

namespace BuildImpact

/-- A question about a graph. -/
inductive Query where
  | impact (root : String)
  | closure (root : String)
  | depths (root : String)
  /-- A gated route begins with a compile edge. -/
  | route (source target : String) (isGated : Bool)
  /-- Without roots, every unit of the graph is one. -/
  | affected (roots : List String)
deriving Repr, DecidableEq, Inhabited

namespace Query

/-- Units in the order of their characters. -/
def sortUnits (units : List String) : List String := units.mergeSort fun first second =>
  decide (first ≤ second)

/-- Entries in the order of their units. -/
def sortEntries {α : Type} (entries : List (String × α)) : List (String × α) :=
  entries.mergeSort fun first second => decide (first.1 ≤ second.1)

/-- The roots of a query about affected units. -/
def chosenRoots (graph : BuildGraph String) (roots : List String) : List String :=
  if roots.isEmpty then sortUnits graph.units else roots

/-- The search behind a route. -/
def search (graph : BuildGraph String) (source target : String) (isGated : Bool) :
    Route.Outcome String :=
  graph.searchRoute (if isGated then .compileEdge else .anyEdge) source target

/-- The other units of an impact. -/
def impactReport (graph : BuildGraph String) (root : String) : Report :=
  .impact root (sortUnits ((graph.impact root).toList.filter (· != root)))

/-- The other units of a closure. -/
def closureReport (graph : BuildGraph String) (root : String) : Report :=
  .closure root (sortEntries ((graph.closure root).toList.filter (·.1 != root)))

/-- The units of a depth map. -/
def depthsReport (graph : BuildGraph String) (root : String) : Report :=
  .depths root (sortEntries (graph.depths root).toList)

/-- For each unit, the other roots that it recompiles; units without any are
left out. -/
def affectedReport (graph : BuildGraph String) (roots : List String) : Report :=
  let entries := (graph.rootsByUnit roots).toList.map fun entry =>
    (entry.1, entry.2.filter (· != entry.1))
  .affected roots.length (sortEntries (entries.filter (!·.2.isEmpty)))

/-- The answer to a query. -/
def report (graph : BuildGraph String) : Query → Report
  | .impact root => impactReport graph root
  | .closure root => closureReport graph root
  | .depths root => depthsReport graph root
  | .route source target isGated =>
    .route source target isGated (search graph source target isGated).route
  | .affected roots => affectedReport graph (chosenRoots graph roots)

/-! ### Notes -/

/-- A unit that the graph does not contain is noted. -/
def unknownUnits (graph : BuildGraph String) (units : List String) : List LogEvent :=
  (units.filter (!graph.contains ·)).map .unknownUnit

/-- What is noted about the query itself. -/
def notices (graph : BuildGraph String) : Query → List LogEvent
  | .impact root | .closure root | .depths root => unknownUnits graph [root]
  | .route source target _ => unknownUnits graph [source, target]
  | .affected roots =>
    if roots.isEmpty then [.allUnitsChosen (chosenRoots graph roots).length] else []

/-- The note about an impact. -/
def impactFinding (graph : BuildGraph String) (root : String) : LogEvent :=
  .impactFound root (graph.impact root).size

/-- The notes about a closure: one for every time that its root was expanded
again, and one at the end. -/
def closureFindings (graph : BuildGraph String) (root : String) : List LogEvent :=
  let walk := graph.closureWalk root
  List.replicate (walk.expansions.count root - 1) (.rootExpandedAgain root) ++
    [.closureFound root walk.links.size]

/-- What is noted about the answer. -/
def findings (graph : BuildGraph String) : Query → List LogEvent
  | .impact root => [impactFinding graph root]
  | .closure root => closureFindings graph root
  | .depths root => [.depthsFound root (graph.depths root).size]
  | .route source target isGated =>
    let outcome := search graph source target isGated
    [.routeSearched source target isGated outcome.recorded
      (outcome.route.map fun units => units.length - 1)]
  | .affected roots =>
    let roots := chosenRoots graph roots
    roots.map (impactFinding graph) ++
      [.impactsInverted roots.length (graph.rootsByUnit roots).size]

/-- All that is noted within a limit.  Findings are not looked for if the limit
hides them. -/
def events (graph : BuildGraph String) (limit : LogLimit) (query : Query) : List LogEvent :=
  query.notices graph ++ if limit.shows .debug then query.findings graph else []

end Query

end BuildImpact
