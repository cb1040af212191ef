/-
Module: BuildImpact.Graph.Depths
Layer: Graphs
Purpose: The least number of edges from a root to each unit it reaches.
Imports: BuildImpact.Graph.Layers
Trusted boundary: none
Main exports: Depths.recorder, BuildGraph.depths
Open obligations: none
-/
import BuildImpact.Graph.Layers

namespace BuildImpact

variable {N : Type} [BEq N] [Hashable N]

namespace Depths

/-- A visitor that notes the depth of a unit when an edge first leads to it, and
follows only such edges.  The root alone is noted at its visit. -/
def recorder : Layers.Visitor N (Std.HashMap N Nat) where
  arrive depths arrival := depths.insertIfNew arrival.unit arrival.depth
  takes depths arrival edge :=
    if depths.contains edge.target then (false, depths)
    else (true, depths.insert edge.target (arrival.depth + 1))

end Depths

namespace BuildGraph

/-- Every unit reachable from `root` with its depth; `root` has depth 0. -/
def depths (graph : BuildGraph N) (root : N) : Std.HashMap N Nat :=
  Layers.walk graph Depths.recorder root ∅

end BuildGraph

end BuildImpact
