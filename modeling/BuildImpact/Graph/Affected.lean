/-
Module: BuildImpact.Graph.Affected
Layer: Graphs
Purpose: For each unit, the roots of a list that its change recompiles.
Imports: BuildImpact.Graph.Impact
Trusted boundary: none
Main exports: Affected.mark, Affected.invert, BuildGraph.rootsByUnit
Open obligations: none
-/
import BuildImpact.Graph.Impact

namespace BuildImpact

variable {N : Type} [BEq N] [Hashable N]

namespace Affected

/-- Put `root` in front of the list of `unit`. -/
def mark (root : N) (affected : Std.HashMap N (List N)) (unit : N) : Std.HashMap N (List N) :=
  affected.insert unit (root :: affected.getD unit [])

/-- Turn lists of units around: for each unit the roots in whose list it stands, in the
order of the roots. -/
def invert (impacts : List (N × List N)) : Std.HashMap N (List N) :=
  impacts.foldr (fun impact affected => impact.2.foldl (mark impact.1) affected) ∅

end Affected

namespace BuildGraph

/-- For each unit in the impact of a root, the roots that it recompiles, in
the order and as often as `roots` gives them. -/
def rootsByUnit (graph : BuildGraph N) (roots : List N) : Std.HashMap N (List N) :=
  let budget := Impact.budget graph
  Affected.invert
    (roots.map fun root => (root, (graph.impactWithin budget root).matched.toList))

end BuildGraph

end BuildImpact

