/-
Module: BuildImpact.Graph.Layers
Layer: Graphs
Purpose: A breadth-first walk in layers, driven by a visitor with a memory.
Imports: BuildImpact.Graph.Basic
Trusted boundary: none
Main exports: Layers.Arrival, Layers.Visitor, Layers.State, Layers.step, Layers.run
Open obligations: none
-/
import BuildImpact.Graph.Basic

namespace BuildImpact

variable {N : Type} [BEq N] [Hashable N]

namespace Layers

/-- A unit on its way to be visited. -/
structure Arrival (N : Type) where
  unit : N
  /-- The unit whose edge led here; the start has none. -/
  via : Option N
  /-- The number of edges from the start. -/
  depth : Nat
deriving Repr, DecidableEq, Inhabited

/-- What a walk does at its units and edges.  Both parts see and renew a memory
of type `σ`. -/
structure Visitor (N σ : Type) where
  /-- Take note of a unit that has its turn. -/
  arrive : σ → Arrival N → σ
  /-- Decide whether an edge of the unit just visited puts its target on the
  next layer. -/
  takes : σ → Arrival N → Edge N → Bool × σ

/-- The walk between two visits. -/
structure State (N σ : Type) where
  /-- The rest of the layer at hand, in the order of the visits to come. -/
  current : List (Arrival N)
  /-- The layer after it as far as it is known, the latest entry first. -/
  next : List (Arrival N)
  memory : σ

/-- The walk starts with the start unit alone in its layer. -/
def State.start {σ : Type} (unit : N) (memory : σ) : State N σ where
  current := [⟨unit, none, 0⟩]
  next := []
  memory

/-- The edges of the unit at hand, one after another: each followed edge puts
its target in front of `next`. -/
def follow {σ : Type} (visitor : Visitor N σ) (arrival : Arrival N) :
    List (Edge N) → List (Arrival N) → σ → List (Arrival N) × σ
  | [], next, memory => (next, memory)
  | edge :: edges, next, memory =>
    match visitor.takes memory arrival edge with
    | (true, memory) =>
      let found : Arrival N := ⟨edge.target, some arrival.unit, arrival.depth + 1⟩
      follow visitor arrival edges (found :: next) memory
    | (false, memory) => follow visitor arrival edges next memory

/-- Visit the first unit of the layer at hand.  When it was the last one, the
next layer takes its place.  A finished walk stays as it is. -/
def step {σ : Type} (graph : BuildGraph N) (visitor : Visitor N σ) (state : State N σ) :
    State N σ :=
  match state.current with
  | [] => state
  | arrival :: waiting =>
    let (next, memory) :=
      follow visitor arrival (graph.edges arrival.unit) state.next
        (visitor.arrive state.memory arrival)
    match waiting with
    | [] => ⟨next.reverse, [], memory⟩
    | _ :: _ => ⟨waiting, next, memory⟩

/-- Exactly `count` visits, or fewer when the walk ends before. -/
def steps {σ : Type} (graph : BuildGraph N) (visitor : Visitor N σ) : Nat → State N σ → State N σ
  | 0, state => state
  | count + 1, state => steps graph visitor count (step graph visitor state)

/-- Walk through at most `layers` whole layers. -/
def run {σ : Type} (graph : BuildGraph N) (visitor : Visitor N σ) : Nat → State N σ → State N σ
  | 0, state => state
  | layers + 1, state =>
    match state.current with
    | [] => state
    | _ :: _ => run graph visitor layers (steps graph visitor state.current.length state)

/-- A number of layers that no shortest route exceeds: a route passes each unit
once at most, except that it may come back to its start once. -/
def budget (graph : BuildGraph N) : Nat := graph.edgeCount + 3

/-- The memory at the end of a walk from `start`. -/
def walk {σ : Type} (graph : BuildGraph N) (visitor : Visitor N σ) (start : N) (memory : σ) : σ :=
  (run graph visitor (budget graph) (State.start start memory)).memory

end Layers

end BuildImpact
