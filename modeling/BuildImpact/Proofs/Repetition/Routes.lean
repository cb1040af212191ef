/-
Module: BuildImpact.Proofs.Repetition.Routes
Layer: Proofs
Purpose: Repeated edges and routes.  A walk along the edges of a graph is one along their
  places in a graph in which edges are repeated, walks keep their order there, and every
  walk of the second graph is preceded by one along these places.  So the foremost course
  is the same, and with it the route.
Imports: BuildImpact.Proofs.Repetition.Edges, BuildImpact.Proofs.Route.Order
Trusted boundary: none
Main exports: Walk.moved, Walk.Placed.moved, Walk.Placed.moved_le, Route.Foremost.moved,
  BuildGraph.RepeatsEdges.routeTo?_eq
Open obligations: none
-/
import BuildImpact.Proofs.Repetition.Edges
import BuildImpact.Proofs.Route.Order

namespace BuildImpact

variable {N : Type} [BEq N] [Hashable N] {graph other : BuildGraph N}

/-! ### Walks along moved edges -/

namespace Walk

theorem nil_le (positions : List Nat) : [] ≤ positions :=
  not_lt.mp (List.not_lt_nil positions)

/-- Lists of positions are compared by their first positions, and by the others where these
are the same. -/
theorem cons_le_cons_iff {position other : Nat} {positions others : List Nat} :
    position :: positions ≤ other :: others ↔
      position < other ∨ position = other ∧ positions ≤ others := by
  rw [← not_lt, ← not_lt, List.cons_lt_cons_iff, not_or, not_lt, not_and, le_iff_lt_or_eq]
  grind

/-- The positions of the edges of a walk where each edge is moved to its place among the
edges of its unit. -/
def moved (place : N → Nat → Nat) : N → List (Edge N) → List Nat → List Nat
  | source, edge :: edges, position :: positions =>
      place source position :: moved place edge.target edges positions
  | _, _, _ => []

namespace Placed

variable {place : N → Nat → Nat} {source target : N} {edges : List (Edge N)}
  {positions : List Nat}

/-- A walk goes along the moved edges. -/
theorem moved (placed : Placed graph source edges positions target)
    (embeds : ∀ unit, Embeds (place unit) (graph.edges unit) (other.edges unit)) :
    Placed other source edges (Walk.moved place source edges positions) target := by
  induction placed with
  | stay unit => exact .stay unit
  | hop given _ inductionHypothesis =>
      exact .hop ((embeds _).kept _ _ given) inductionHypothesis

/-- Moving the edges does not change the order of walks. -/
theorem moved_le {target' : N} {others : List (Edge N)} {otherPositions : List Nat}
    (placed : Placed graph source edges positions target)
    (otherPlaced : Placed graph source others otherPositions target')
    (embeds : ∀ unit, Embeds (place unit) (graph.edges unit) (other.edges unit))
    (le : positions ≤ otherPositions) :
    Walk.moved place source edges positions ≤ Walk.moved place source others otherPositions := by
  induction placed generalizing others otherPositions with
  | stay => exact nil_le _
  | @hop source _ edge _ position _ given _ inductionHypothesis =>
      cases otherPlaced with
      | stay => exact absurd (List.nil_lt_cons _ _) (not_lt.mpr le)
      | hop otherGiven onward =>
          rw [Walk.moved, Walk.moved, cons_le_cons_iff]
          rcases cons_le_cons_iff.mp le with less | ⟨rfl, rest⟩
          · exact .inl ((embeds source).mono less)
          · cases given.symm.trans otherGiven
            exact .inr ⟨rfl, inductionHypothesis onward rest⟩

/-- A walk that may use copies is preceded by one along the edges copied. -/
theorem exists_moved_le (placed : Placed other source edges positions target)
    (embeds : ∀ unit, Embeds (place unit) (graph.edges unit) (other.edges unit)) :
    ∃ originals, Placed graph source edges originals target ∧
      Walk.moved place source edges originals ≤ positions := by
  induction placed with
  | stay unit => exact ⟨[], .stay unit, nil_le _⟩
  | @hop source _ edge edges position positions given _ inductionHypothesis =>
      obtain ⟨original, isGiven, bound⟩ := (embeds source).first position edge given
      obtain ⟨originals, onward, rest⟩ := inductionHypothesis
      refine ⟨original :: originals, .hop isGiven onward, ?_⟩
      rw [Walk.moved, cons_le_cons_iff]
      exact (Nat.lt_or_eq_of_le bound).imp_right fun same => ⟨same, rest⟩

end Placed

end Walk

/-! ### Routes -/

namespace Route

variable {gate : Gate} {place : N → Nat → Nat} {source target : N} {edges : List (Edge N)}
  {positions : List Nat}

/-- The foremost course is foremost along the moved edges too. -/
theorem Foremost.moved (foremost : Foremost graph gate source edges positions target)
    (embeds : ∀ unit, Embeds (place unit) (graph.edges unit) (other.edges unit)) :
    Foremost other gate source edges (Walk.moved place source edges positions) target := by
  obtain ⟨placed, begins, least⟩ := foremost_iff_placed.mp foremost
  refine foremost_iff_placed.mpr ⟨placed.moved embeds, begins, ?_⟩
  intro others otherPositions otherPlaced otherBegins
  obtain ⟨originals, original, before⟩ := otherPlaced.exists_moved_le embeds
  obtain ⟨hops, first⟩ := least others originals original otherBegins
  exact ⟨hops, fun same => (placed.moved_le original embeds (first same)).trans before⟩

/-- In a graph with the same edges one arrives at the same units. -/
theorem Arrives.imp {depth : Nat} (arrives : Arrives graph gate source depth target)
    (given : ∀ unit, ∀ edge ∈ graph.edges unit, edge ∈ other.edges unit) :
    Arrives other gate source depth target := by
  obtain ⟨edges, walk, opens, length⟩ := arrives_iff_walk.mp arrives
  exact arrives_iff_walk.mpr ⟨edges, walk.imp given, opens, length⟩

end Route

namespace BuildGraph.RepeatsEdges

open Route

variable [LawfulBEq N]

/-- Repeated edges do not change a route. -/
theorem routeTo?_eq (repeats : RepeatsEdges graph other) (gate : Gate) (source target : N) :
    routeTo? (other.routeRecords gate source) target =
      routeTo? (graph.routeRecords gate source) target := by
  choose place embeds using fun unit => (repeats unit).exists_embeds
  have kept : ∀ route, routeTo? (graph.routeRecords gate source) target = some route →
      routeTo? (other.routeRecords gate source) target = some route := by
    intro route found
    obtain ⟨edges, positions, foremost, isRoute⟩ :=
      (charted_routeRecords graph gate source).routeTo?_eq_some_iff.mp found
    exact (charted_routeRecords other gate source).routeTo?_eq_some_iff.mpr
      ⟨edges, _, foremost.moved embeds, isRoute⟩
  cases found : routeTo? (graph.routeRecords gate source) target with
  | some route => exact kept route found
  | none =>
      apply Option.not_isSome_iff_eq_none.mp
      intro given
      obtain ⟨depth, counts, arrives⟩ := isSome_routeTo?_iff.mp given
      have there := isSome_routeTo?_iff.mpr
        ⟨depth, counts, arrives.imp fun unit edge => (repeats.mem_iff unit edge).mpr⟩
      rw [found] at there
      cases there

end BuildGraph.RepeatsEdges

end BuildImpact
