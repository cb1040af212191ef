/-
Module: BuildImpact.Proofs.Route.Termination
Layer: Proofs
Purpose: A search for routes comes to its end, although units are marked only when they
  are visited and the source of a search with a gate may go on to be visited later.  A unit
  is visited one layer late at most, and no unit is further away than there are units in
  reach, so the layers beyond these are empty.
Imports: Mathlib.Data.Set.Card, BuildImpact.Proofs.Layers.Steps,
  BuildImpact.Proofs.Route.Search
Trusted boundary: none
Main exports: BuildGraph.finite_reaches, Route.Nearest.le_ncard_reaches,
  Route.Frontier.depth_le, Route.search_finishes
Open obligations: none
-/
import Mathlib.Data.Set.Card
import BuildImpact.Proofs.Layers.Steps
import BuildImpact.Proofs.Route.Search

namespace BuildImpact

variable {N : Type} [BEq N] [Hashable N] {graph : BuildGraph N}

open Layers (Arrival)

/-! ### The units in reach -/

/-- A unit reaches finitely many units: itself, and some of the targets. -/
theorem BuildGraph.finite_reaches [LawfulBEq N] (graph : BuildGraph N) (source : N) :
    {unit | graph.Reaches source unit}.Finite := by
  classical
  apply (insert source graph.targets).finite_toSet.subset
  intro unit reaches
  rw [Finset.mem_coe, Finset.mem_insert]
  rcases reaches.eq_or_exists_edge with isSource | ⟨_, _, _, edge, given, isTarget⟩
  · exact .inl isSource.symm
  · exact .inr (isTarget ▸ target_mem_targets given)

namespace Route

variable {gate : Gate} {source unit : N} {depth : Nat}

/-- Where a walk of a search arrives, the source reaches. -/
theorem Arrives.reaches (arrives : Arrives graph gate source depth unit) :
    graph.Reaches source unit := by
  obtain ⟨edges, walk, _, _⟩ := arrives_iff_walk.mp arrives
  exact ⟨edges, walk⟩

variable [LawfulBEq N]

/-- No unit is further away than there are units in reach. -/
theorem Nearest.le_ncard_reaches (nearest : Nearest graph gate source depth unit) :
    depth ≤ {unit | graph.Reaches source unit}.ncard := by
  obtain ⟨units, _, card, near⟩ := nearest.exists_targets
  have inReach : (units : Set N) ⊆ {unit | graph.Reaches source unit} := by
    intro target member
    obtain ⟨_, _, nearer⟩ := near target member
    exact nearer.arrives.reaches
  calc depth = units.card := card.symm
    _ = (units : Set N).ncard := (Set.ncard_coe_finset units).symm
    _ ≤ _ := Set.ncard_le_ncard inReach (graph.finite_reaches source)

/-- A layer on which something is left to visit is not deeper than that, but for late
visits. -/
theorem Frontier.depth_le {arrival : Arrival N} {waiting next : List (Arrival N)}
    {records : Records N}
    (frontier : Frontier graph gate source depth (arrival :: waiting) next records) :
    depth ≤ {unit | graph.Reaches source unit}.ncard + 1 := by
  obtain ⟨justified, late⟩ := frontier.arriving arrival List.mem_cons_self
  cases depth with
  | zero => exact Nat.zero_le _
  | succ depth =>
      obtain ⟨least, _, nearest⟩ :=
        exists_nearest (gate.counts_of_pos depth.succ_pos) justified.arrives
      calc depth + 1 ≤ least + 1 := late least nearest
        _ ≤ _ := Nat.succ_le_succ nearest.le_ncard_reaches

/-- The search for routes terminates, with a gate and without one.  After some number of
visits, and not before, both layers are empty, and the records are those from which routes
are read.  No visit is at a depth that exceeds the number of units in reach by more than
one. -/
theorem search_finishes (graph : BuildGraph N) (gate : Gate) (source : N) :
    let after := fun visits =>
      Layers.steps graph (recorder gate) visits (Layers.State.start source ∅)
    (∃ count, (∀ fewer < count, (after fewer).current ≠ []) ∧
      after count = ⟨[], [], graph.routeRecords gate source⟩) ∧
    {unit | graph.Reaches source unit}.Finite ∧
    ∀ visits arrival, (after visits).current.head? = some arrival →
      arrival.depth ≤ {unit | graph.Reaches source unit}.ncard + 1 := by
  intro after
  refine ⟨?_, graph.finite_reaches source, ?_⟩
  · exact kept_frontier.exists_last_visit (frontier_start graph gate source)
      fun frontier => frontier.depth_lt_budget
  · intro visits arrival turn
    obtain ⟨depth, frontier⟩ : ∃ depth, Frontier graph gate source depth (after visits).current
        (after visits).next (after visits).memory :=
      kept_frontier.steps visits (frontier_start graph gate source)
    obtain ⟨waiting, current⟩ := List.head?_eq_some_iff.mp turn
    rw [current] at frontier
    have atDepth := (frontier.arriving arrival List.mem_cons_self).1.depth_eq
    rw [atDepth]
    exact frontier.depth_le

/-- A graph in which the chain of compile dependencies of `0` leads back to `0`, which
also needs itself, and from there to `3`. -/
def turnpike : BuildGraph Nat :=
  .ofList [(0, [⟨1, .compile⟩, ⟨3, .runtime⟩, ⟨0, .runtime⟩]),
    (1, [⟨2, .runtime⟩, ⟨2, .reexport⟩]), (2, [⟨1, .compile⟩, ⟨0, .runtime⟩])]

/-- Behind the gate the search of `turnpike` comes to its end with nothing visited at a
depth above five. -/
theorem search_finishes_turnpike :
    (∃ count, Layers.steps turnpike (recorder .compileEdge) count (Layers.State.start 0 ∅) =
        ⟨[], [], turnpike.routeRecords .compileEdge 0⟩) ∧
      ∀ visits arrival,
        (Layers.steps turnpike (recorder .compileEdge) visits
          (Layers.State.start 0 ∅)).current.head? = some arrival → arrival.depth ≤ 5 := by
  have inside : ∀ unit, ∀ edge ∈ turnpike.edges unit, edge.target < 4 :=
    BuildGraph.forall_edges_ofList.mpr (by decide)
  have reach : {unit | turnpike.Reaches 0 unit} ⊆ (Finset.range 4 : Set Nat) := by
    intro unit reaches
    rw [Finset.coe_range, Set.mem_Iio]
    exact reaches.closed (fun unit (_ : unit < 4) => inside unit) (by decide)
  have few : {unit | turnpike.Reaches 0 unit}.ncard ≤ 4 := by
    calc _ ≤ (Finset.range 4 : Set Nat).ncard := Set.ncard_le_ncard reach (Finset.finite_toSet _)
      _ = 4 := by rw [Set.ncard_coe_finset, Finset.card_range]
  obtain ⟨⟨count, _, ends⟩, _, shallow⟩ := search_finishes turnpike .compileEdge 0
  refine ⟨⟨count, ends⟩, fun visits arrival turn => ?_⟩
  exact (shallow visits arrival turn).trans (Nat.succ_le_succ few)

end Route

end BuildImpact
