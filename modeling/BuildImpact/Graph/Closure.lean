/-
Module: BuildImpact.Graph.Closure
Layer: Graphs
Purpose: Every reachable unit with its strongest link to the root.
Imports: BuildImpact.Graph.Basic, BuildImpact.Unit.Linkage
Trusted boundary: none
Main exports: Closure.strongestFirst, Closure.State, Closure.step, Closure.run,
  BuildGraph.closureWithin, BuildGraph.closure
Open obligations: none
-/
import BuildImpact.Graph.Basic
import BuildImpact.Unit.Linkage

namespace BuildImpact

variable {N : Type} [BEq N] [Hashable N]

/-! ### The walk

The edges of a unit are taken by precedence, compile before export before
runtime, and the walk goes depth first.  The first link that a unit gets
stays.  Behind a compile edge of the root everything is linked by `compile`;
otherwise only the root's own edges give their kind, and all else is linked by
`runtime`.

When a chain of compile dependencies leads back to the root, the root's whole
reach belongs to the chain.  The walk then expands the root again, now as a
compile dependency.  Each frame of a chain holds its own permission to do so,
which the frame that uses it gives up.
-/

namespace Closure

/-- The edges of a unit, compile before export before runtime; within one kind
the given order stays. -/
def strongestFirst (edges : List (Edge N)) : List (Edge N) :=
  edges.filter (·.kind == .compile) ++ edges.filter (·.kind == .reexport) ++
    edges.filter (·.kind == .runtime)

/-- The link given by an edge outside every compile chain, and whether the
target opens a chain.  Only the root's own edges give more than `runtime`. -/
def directLink (kind : EdgeKind) (isFirst : Bool) : Linkage × Bool :=
  match kind, isFirst with
  | .compile, true => (.compile, true)
  | .reexport, true => (.reexport, false)
  | _, _ => (.runtime, false)

/-- What is left to do for one unit that is being expanded. -/
structure Frame (N : Type) where
  /-- The edges that have not been looked at, by precedence. -/
  pending : List (Edge N)
  /-- Whether this is the first expansion of the root. -/
  isFirst : Bool
  /-- Whether the unit was reached as a compile dependency. -/
  inChain : Bool
  /-- The root, while this frame may still expand it again. -/
  revisit : Option N
deriving Repr, Inhabited

/-- The walk between two looks at an edge. -/
structure State (N : Type) [BEq N] [Hashable N] where
  /-- The units found so far, each with its link. -/
  links : Std.HashMap N Linkage
  /-- The units expanded so far, the latest first. -/
  expansions : List N
  /-- The units being expanded, the innermost first. -/
  stack : List (Frame N)

/-- The walk starts with the root linked to itself and expanded. -/
def State.start (graph : BuildGraph N) (root : N) : State N where
  links := Std.HashMap.emptyWithCapacity.insert root .compile
  expansions := [root]
  stack := [⟨strongestFirst (graph.edges root), true, false, some root⟩]

/-- Whether `edge` leads from `frame` back to the root as a compile dependency
while the frame may still expand the root again. -/
def Frame.revisits (frame : Frame N) (edge : Edge N) : Bool :=
  frame.revisit == some edge.target &&
    (frame.inChain || (frame.isFirst && edge.kind == .compile))

/-- Look at the next edge of the innermost unit, or leave that unit when it has
no edge left.  A finished walk stays as it is. -/
def step (graph : BuildGraph N) (state : State N) : State N :=
  match state.stack with
  | [] => state
  | frame :: outer =>
    match frame.pending with
    | [] => { state with stack := outer }
    | edge :: pending =>
      let again := frame.revisits edge
      let suspended : Frame N :=
        { frame with pending, revisit := if again then none else frame.revisit }
      if state.links.contains edge.target && !again then
        { state with stack := suspended :: outer }
      else
        let found :=
          if frame.inChain then (Linkage.compile, true)
          else directLink edge.kind frame.isFirst
        let opened : Frame N :=
          { pending := strongestFirst (graph.edges edge.target)
            isFirst := false
            inChain := found.2
            revisit := if found.2 then suspended.revisit else none }
        { links := state.links.insert edge.target found.1
          expansions := edge.target :: state.expansions
          stack := opened :: suspended :: outer }

/-- Repeat `step`, at most `fuel` times, until nothing is being expanded. -/
def run (graph : BuildGraph N) : Nat → State N → State N
  | 0, state => state
  | fuel + 1, state =>
    match state.stack with
    | [] => state
    | _ :: _ => run graph fuel (step graph state)

/-- A number of steps that no walk exceeds: every unit but the root is expanded
once at most, and each of these expansions may expand the root once more. -/
def budget (graph : BuildGraph N) : Nat := 2 * (graph.edgeCount + 2) * (graph.edgeCount + 2)

end Closure

namespace BuildGraph

/-- The finished closure walk from `root`. -/
def closureWalk (graph : BuildGraph N) (root : N) : Closure.State N :=
  Closure.run graph (Closure.budget graph) (Closure.State.start graph root)

/-- Every unit reachable from `root`, each with its strongest link to it. -/
def closure (graph : BuildGraph N) (root : N) : Std.HashMap N Linkage :=
  (graph.closureWalk root).links

end BuildGraph

end BuildImpact
