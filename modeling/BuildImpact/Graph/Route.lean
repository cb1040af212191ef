/-
Module: BuildImpact.Graph.Route
Layer: Graphs
Purpose: Shortest routes between two units, with any first edge or a compile edge.
Imports: BuildImpact.Graph.Layers
Trusted boundary: none
Main exports: Route.Gate, Route.Record, Route.recorder, Route.trace,
  Route.routeTo?, BuildGraph.routeRecords, BuildGraph.shortestRoute?,
  BuildGraph.gatedRoute?
Open obligations: none
-/
import BuildImpact.Graph.Layers

namespace BuildImpact

variable {N : Type} [BEq N] [Hashable N]

namespace Route

/-- Which edges may be the first one of a route. -/
inductive Gate where
  | anyEdge
  | compileEdge
deriving Repr, DecidableEq, Inhabited

/-- Whether an edge of the given kind may be the first one. -/
def Gate.admits : Gate → EdgeKind → Bool
  | .anyEdge, _ => true
  | .compileEdge, kind => kind == .compile

/-- How a unit was first visited. -/
structure Record (N : Type) where
  depth : Nat
  parent : Option N
deriving Repr, DecidableEq, Inhabited

/-- The records of a search, by unit. -/
abbrev Records (N : Type) [BEq N] [Hashable N] := Std.HashMap N (Record N)

/-- Note a visit.  A record gives way only to a visit at a smaller depth.  The
start of a search that demands a compile edge first is left without a record,
so that a cycle can lead back to it. -/
def note (gate : Gate) (records : Records N) (arrival : Layers.Arrival N) : Records N :=
  match records[arrival.unit]? with
  | some known =>
    if arrival.depth < known.depth then records.insert arrival.unit ⟨arrival.depth, arrival.via⟩
    else records
  | none =>
    if arrival.depth == 0 && gate == .compileEdge then records
    else records.insert arrival.unit ⟨arrival.depth, arrival.via⟩

/-- A visitor that follows the edges to units without a record, and out of the
start only those that `gate` admits. -/
def recorder (gate : Gate) : Layers.Visitor N (Records N) where
  arrive := note gate
  takes records arrival edge :=
    (!records.contains edge.target && (decide (0 < arrival.depth) || gate.admits edge.kind),
      records)

/-- Put the parents of a record, back to the start, in front of `route`.  The
way back ends at a record without a parent, at a parent without a record, and
at a parent whose record is not less deep. -/
def trace (records : Records N) (record : Record N) (route : List N) : List N :=
  match record.parent with
  | none => route
  | some parent =>
    match records[parent]? with
    | none => parent :: route
    | some known =>
      if known.depth < record.depth then trace records known (parent :: route)
      else parent :: route
termination_by record.depth

/-- The recorded route to `target`, start first; none without a record. -/
def routeTo? (records : Records N) (target : N) : Option (List N) :=
  records[target]?.map fun record => trace records record [target]

/-- The outcome of a search: the route, and the number of units with a record. -/
structure Outcome (N : Type) where
  route : Option (List N)
  recorded : Nat
deriving Repr, Inhabited

end Route

namespace BuildGraph

/-- The records of a search from `source` through everything it reaches. -/
def routeRecords (graph : BuildGraph N) (gate : Route.Gate) (source : N) :
    Route.Records N :=
  Layers.walk graph (Route.recorder gate) source ∅

/-- Search for a route from `source` to `target`. -/
def searchRoute (graph : BuildGraph N) (gate : Route.Gate) (source target : N) :
    Route.Outcome N :=
  let records := graph.routeRecords gate source
  ⟨Route.routeTo? records target, records.size⟩

/-- A route with the fewest edges from `source` to `target`, both included. -/
def shortestRoute? (graph : BuildGraph N) (source target : N) : Option (List N) :=
  (graph.searchRoute .anyEdge source target).route

/-- A route with the fewest edges among those that begin with a compile edge.
From a unit to itself it is a cycle. -/
def gatedRoute? (graph : BuildGraph N) (source target : N) : Option (List N) :=
  (graph.searchRoute .compileEdge source target).route

end BuildGraph

end BuildImpact
