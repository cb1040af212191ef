/-
Module: BuildImpact.Graph.Impact
Layer: Graphs
Purpose: The units whose change forces a root to recompile.
Imports: BuildImpact.Graph.Basic
Trusted boundary: none
Main exports: Impact.State, Impact.step, Impact.run, BuildGraph.impactWithin,
  BuildGraph.impact
Open obligations: none
-/
import BuildImpact.Graph.Basic

namespace BuildImpact

variable {N : Type} [BEq N] [Hashable N]

/-! ### The walk

The walk goes depth first through the edges in their given order and matches
each unit once.  A compile edge matches its target and expands it; an export
edge matches its target and leaves it alone; a runtime edge counts only below
a unit that was itself reached as a compile dependency, and then acts like a
compile edge.  Which of two edges meets a unit first decides whether the unit
is expanded, so the order of the edges shows in the result.
-/

namespace Impact

/-- What is left to do for one unit that is being expanded. -/
structure Frame (N : Type) where
  /-- The edges that have not been looked at. -/
  pending : List (Edge N)
  /-- Whether the unit was reached as a compile dependency. -/
  inChain : Bool
deriving Repr, Inhabited

/-- A unit as the walk discovered it. -/
structure Discovery (N : Type) where
  unit : N
  /-- Whether its own edges are walked too. -/
  expanded : Bool
deriving Repr, DecidableEq, Inhabited

/-- The walk between two looks at an edge. -/
structure State (N : Type) [BEq N] [Hashable N] where
  /-- The units found so far. -/
  matched : Std.HashSet N
  /-- The same units in the order of their discovery, the latest first. -/
  discoveries : List (Discovery N)
  /-- The units being expanded, the innermost first. -/
  stack : List (Frame N)

/-- The walk starts with the root matched and expanded, outside any chain. -/
def State.start (graph : BuildGraph N) (root : N) : State N where
  matched := Std.HashSet.emptyWithCapacity.insert root
  discoveries := [⟨root, true⟩]
  stack := [⟨graph.edges root, false⟩]

/-- Whether an edge may match its target: runtime edges only inside a chain. -/
def follows (inChain : Bool) : EdgeKind → Bool
  | .compile => true
  | .reexport => true
  | .runtime => inChain

/-- Whether an edge that matches its target also expands it. -/
def expands : EdgeKind → Bool
  | .compile => true
  | .reexport => false
  | .runtime => true

/-- Look at the next edge of the innermost unit, or leave that unit when it has
no edge left.  A finished walk stays as it is. -/
def step (graph : BuildGraph N) (state : State N) : State N :=
  match state.stack with
  | [] => state
  | ⟨[], _⟩ :: outer => { state with stack := outer }
  | ⟨edge :: pending, inChain⟩ :: outer =>
    let suspended : List (Frame N) := ⟨pending, inChain⟩ :: outer
    if follows inChain edge.kind && !state.matched.contains edge.target then
      { matched := state.matched.insert edge.target
        discoveries := ⟨edge.target, expands edge.kind⟩ :: state.discoveries
        stack :=
          if expands edge.kind then ⟨graph.edges edge.target, true⟩ :: suspended
          else suspended }
    else
      { state with stack := suspended }

/-- Repeat `step`, at most `fuel` times, until nothing is being expanded. -/
def run (graph : BuildGraph N) : Nat → State N → State N
  | 0, state => state
  | fuel + 1, state =>
    match state.stack with
    | [] => state
    | _ :: _ => run graph fuel (step graph state)

/-- A number of steps that no walk exceeds: every edge is looked at once at
most, and every expanded unit other than the root is the target of an edge. -/
def budget (graph : BuildGraph N) : Nat := 2 * graph.edgeCount + 2

end Impact

namespace BuildGraph

/-- The state of the impact walk from `root` after at most `fuel` steps. -/
def impactWithin (graph : BuildGraph N) (fuel : Nat) (root : N) : Impact.State N :=
  Impact.run graph fuel (Impact.State.start graph root)

/-- The units whose change forces `root` to recompile, `root` among them. -/
def impact (graph : BuildGraph N) (root : N) : Std.HashSet N :=
  (graph.impactWithin (Impact.budget graph) root).matched

end BuildGraph

end BuildImpact
