/-
Module: BuildImpact.Proofs.Graph.Units
Layer: Proofs
Purpose: The units that occur in a graph.  A unit occurs as a source, with or without
  edges, or as the target of an edge; the list of units and the test for a single unit
  agree on that, and the list holds each unit once.
Imports: BuildImpact.Proofs.Graph.Edges
Trusted boundary: none
Main exports: BuildGraph.Occurs, BuildGraph.mem_units_iff, BuildGraph.nodup_units,
  BuildGraph.contains_iff
Open obligations: none
-/
import BuildImpact.Proofs.Graph.Edges

namespace BuildImpact.BuildGraph

variable {N : Type} [BEq N] [Hashable N] {graph : BuildGraph N} {unit : N}

/-- Whether a unit is a source of the graph or the target of one of its edges. -/
def Occurs (graph : BuildGraph N) (unit : N) : Prop :=
  unit ∈ graph.outgoing ∨ ∃ source, ∃ edge ∈ graph.edges source, edge.target = unit

variable [LawfulBEq N]

/-- The edges of a graph are those of its units. -/
theorem mem_allEdges_iff {edge : Edge N} :
    edge ∈ graph.allEdges ↔ ∃ source, edge ∈ graph.edges source := by
  refine ⟨fun member => ?_, fun ⟨source, given⟩ => mem_allEdges given⟩
  obtain ⟨⟨source, edges⟩, entry, given⟩ := List.mem_flatMap.mp member
  have held := Std.HashMap.mem_toList_iff_getElem?_eq_some.mp entry
  refine ⟨source, ?_⟩
  rwa [BuildGraph.edges, Std.HashMap.getD_eq_getD_getElem?, held]

/-- A unit is a target if it is the target of some unit's edge. -/
theorem mem_targets_iff :
    unit ∈ graph.allEdges.map (·.target) ↔
      ∃ source, ∃ edge ∈ graph.edges source, edge.target = unit := by
  simp only [List.mem_map, mem_allEdges_iff]
  constructor
  · rintro ⟨edge, ⟨source, given⟩, target⟩
    exact ⟨source, edge, given, target⟩
  · rintro ⟨source, edge, given, target⟩
    exact ⟨edge, ⟨source, given⟩, target⟩

/-- Inserting the units of a list adds them and nothing else. -/
theorem mem_foldl_insert (units : List N) (found : Std.HashSet N) :
    unit ∈ units.foldl Std.HashSet.insert found ↔ unit ∈ units ∨ unit ∈ found := by
  induction units generalizing found with
  | nil => simp
  | cons first units inductionHypothesis =>
      rw [List.foldl_cons, inductionHypothesis, Std.HashSet.mem_insert, beq_iff_eq,
        List.mem_cons, eq_comm (a := first)]
      tauto

theorem mem_units_iff : unit ∈ graph.units ↔ graph.Occurs unit := by
  rw [units, Std.HashSet.mem_toList, unitSet, mem_foldl_insert, mem_foldl_insert,
    mem_targets_iff, Std.HashMap.mem_keys, or_iff_left Std.HashSet.not_mem_empty, Occurs, or_comm]

theorem nodup_units : graph.units.Nodup :=
  Std.HashSet.distinct_toList.imp fun differ => by simpa using differ

theorem contains_iff : graph.contains unit = true ↔ graph.Occurs unit := by
  rw [contains, Bool.or_eq_true, Std.HashMap.contains_iff_mem, List.any_eq_true, Occurs,
    ← mem_targets_iff, List.mem_map]
  simp only [beq_iff_eq]

instance : Decidable (graph.Occurs unit) := decidable_of_iff _ contains_iff

end BuildImpact.BuildGraph
