/-
Module: BuildImpact.Graph.Walk
Layer: Graphs
Purpose: Walks along the edges of a graph, and what can be reached by them.
Imports: BuildImpact.Graph.Basic
Trusted boundary: none
Main exports: Walk, Walk.append, BuildGraph.Reaches
Open obligations: none
-/
import BuildImpact.Graph.Basic

namespace BuildImpact

variable {N : Type} [BEq N] [Hashable N]

/-- A walk from one unit to another along the listed edges, in order.  It may
pass a unit or an edge any number of times. -/
inductive Walk (graph : BuildGraph N) : N → List (Edge N) → N → Prop where
  | stay (unit : N) : Walk graph unit [] unit
  | hop {source target : N} {edge : Edge N} {edges : List (Edge N)}
      (given : edge ∈ graph.edges source) (onward : Walk graph edge.target edges target) :
      Walk graph source (edge :: edges) target

namespace Walk

variable {graph : BuildGraph N}

/-- Two walks make one where the first ends and the second begins. -/
theorem append {source middle target : N} {first second : List (Edge N)}
    (front : Walk graph source first middle) (back : Walk graph middle second target) :
    Walk graph source (first ++ second) target := by
  induction front with
  | stay _ => exact back
  | hop given _ onward => exact .hop given (onward back)

end Walk

namespace BuildGraph

/-- Whether a walk of zero or more edges leads from `source` to `target`. -/
def Reaches (graph : BuildGraph N) (source target : N) : Prop :=
  ∃ edges, Walk graph source edges target

variable {graph : BuildGraph N}

/-- Every unit reaches itself. -/
theorem Reaches.refl (unit : N) : graph.Reaches unit unit := ⟨[], .stay unit⟩

/-- A unit reaches the targets of its edges. -/
theorem Reaches.of_mem {source : N} {edge : Edge N} (given : edge ∈ graph.edges source) :
    graph.Reaches source edge.target :=
  ⟨[edge], .hop given (.stay edge.target)⟩

/-- What is reached from a reached unit is reached. -/
theorem Reaches.trans {source middle target : N} (first : graph.Reaches source middle)
    (second : graph.Reaches middle target) : graph.Reaches source target := by
  obtain ⟨front, walkFront⟩ := first
  obtain ⟨back, walkBack⟩ := second
  exact ⟨front ++ back, walkFront.append walkBack⟩

end BuildGraph

end BuildImpact
