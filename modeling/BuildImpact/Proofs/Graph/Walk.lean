/-
Module: BuildImpact.Proofs.Graph.Walk
Layer: Proofs
Purpose: Walks read from either end: what a step keeps is kept by a walk, and a walk can
  be prolonged at its end.  Some walks do not pass a certain unit.
Imports: Mathlib.Data.List.Chain, BuildImpact.Graph.Walk
Trusted boundary: none
Main exports: Walk.units, Walk.snoc, Walk.imp, Walk.getLast?_units, Walk.isChain_units,
  BuildGraph.Reaches.closed, BuildGraph.Reaches.eq_or_exists_edge, BuildGraph.Reaches.imp,
  BuildGraph.ReachesAvoiding
Open obligations: none
-/
import Mathlib.Data.List.Chain
import BuildImpact.Graph.Walk

namespace BuildImpact

variable {N : Type} [BEq N] [Hashable N] {graph : BuildGraph N}

namespace Walk

/-- The units of a walk, its first one included. -/
def units (source : N) (edges : List (Edge N)) : List N := source :: edges.map (·.target)

omit [BEq N] [Hashable N] in
@[simp] theorem length_units (source : N) (edges : List (Edge N)) :
    (units source edges).length = edges.length + 1 := by
  simp [units]

omit [BEq N] [Hashable N] in
@[simp] theorem units_snoc (source : N) (edges : List (Edge N)) (edge : Edge N) :
    units source (edges ++ [edge]) = units source edges ++ [edge.target] := by
  simp [units]

/-- A walk goes on along an edge of its last unit. -/
theorem snoc {source middle : N} {edges : List (Edge N)} {edge : Edge N}
    (walk : Walk graph source edges middle) (given : edge ∈ graph.edges middle) :
    Walk graph source (edges ++ [edge]) edge.target :=
  walk.append (.hop given (.stay edge.target))

/-- A walk of a graph is one of every graph that has its edges. -/
theorem imp {other : BuildGraph N} {source target : N} {edges : List (Edge N)}
    (walk : Walk graph source edges target)
    (given : ∀ unit, ∀ edge ∈ graph.edges unit, edge ∈ other.edges unit) :
    Walk other source edges target := by
  induction walk with
  | stay unit => exact .stay unit
  | hop isEdge _ inductionHypothesis => exact .hop (given _ _ isEdge) inductionHypothesis

/-- The last unit of a walk is where it leads. -/
theorem getLast?_units {source target : N} {edges : List (Edge N)}
    (walk : Walk graph source edges target) : (units source edges).getLast? = some target := by
  induction walk with
  | stay => rfl
  | @hop source target edge edges _ _ inductionHypothesis =>
      rw [← inductionHypothesis]
      exact List.getLast?_cons_cons

/-- Neighbours among the units of a walk are joined by an edge. -/
theorem isChain_units {source target : N} {edges : List (Edge N)}
    (walk : Walk graph source edges target) :
    (units source edges).IsChain
      (fun unit following => ∃ edge ∈ graph.edges unit, edge.target = following) := by
  induction walk with
  | stay => exact .singleton _
  | hop given _ inductionHypothesis => exact .cons_cons ⟨_, given, rfl⟩ inductionHypothesis

end Walk

namespace BuildGraph

/-- What every edge hands on to its target holds of everything reached. -/
theorem Reaches.closed {Holds : N → Prop} {source target : N}
    (reaches : graph.Reaches source target)
    (step : ∀ unit, Holds unit → ∀ edge ∈ graph.edges unit, Holds edge.target)
    (start : Holds source) : Holds target := by
  obtain ⟨edges, walk⟩ := reaches
  induction walk with
  | stay => exact start
  | hop given _ inductionHypothesis => exact inductionHypothesis (step _ start _ given)

/-- A walk from elsewhere reaches a unit for the first time by an edge to it. -/
theorem Reaches.eq_or_exists_edge {source target : N} (reaches : graph.Reaches source target) :
    source = target ∨ ∃ unit, unit ≠ target ∧ graph.Reaches source unit ∧
      ∃ edge ∈ graph.edges unit, edge.target = target := by
  obtain ⟨edges, walk⟩ := reaches
  induction walk with
  | stay unit => exact .inl rfl
  | @hop source target edge _ given _ inductionHypothesis =>
      rcases inductionHypothesis with here | ⟨unit, away, reaches, last⟩
      · by_cases start : source = target
        · exact .inl start
        · exact .inr ⟨source, start, .refl source, edge, given, here⟩
      · exact .inr ⟨unit, away, (Reaches.of_mem given).trans reaches, last⟩

/-- What is reached in a graph is reached in every graph that has its edges. -/
theorem Reaches.imp {other : BuildGraph N} {source target : N}
    (reaches : graph.Reaches source target)
    (given : ∀ unit, ∀ edge ∈ graph.edges unit, edge ∈ other.edges unit) :
    other.Reaches source target := by
  obtain ⟨edges, walk⟩ := reaches
  exact ⟨edges, walk.imp given⟩

/-! ### Reaching a unit past another one -/

/-- Whether a walk leads from `source` to `target` that does not pass `avoided`. -/
def ReachesAvoiding (graph : BuildGraph N) (avoided source target : N) : Prop :=
  ∃ edges, Walk graph source edges target ∧ avoided ∉ Walk.units source edges

namespace ReachesAvoiding

variable {avoided source target : N}

theorem refl (away : source ≠ avoided) : graph.ReachesAvoiding avoided source source :=
  ⟨[], .stay source, by simpa [Walk.units] using away.symm⟩

/-- A walk may begin one edge earlier, at any other unit than the avoided one. -/
theorem hop {edge : Edge N} (given : edge ∈ graph.edges source) (away : source ≠ avoided)
    (reaches : graph.ReachesAvoiding avoided edge.target target) :
    graph.ReachesAvoiding avoided source target := by
  obtain ⟨edges, walk, avoids⟩ := reaches
  refine ⟨edge :: edges, .hop given walk, ?_⟩
  rw [Walk.units, List.map_cons, List.mem_cons, not_or]
  exact ⟨away.symm, avoids⟩

/-- What every edge of another unit than the avoided one hands on to its target
holds of everything reached. -/
theorem closed {Holds : N → Prop} (reaches : graph.ReachesAvoiding avoided source target)
    (step : ∀ unit, unit ≠ avoided → Holds unit → ∀ edge ∈ graph.edges unit, Holds edge.target)
    (start : Holds source) : Holds target := by
  obtain ⟨edges, walk, avoids⟩ := reaches
  induction walk with
  | stay => exact start
  | hop given _ inductionHypothesis =>
      rw [Walk.units, List.map_cons, List.mem_cons, not_or] at avoids
      exact inductionHypothesis (step _ (Ne.symm avoids.1) start _ given) avoids.2

end ReachesAvoiding

end BuildGraph

end BuildImpact
