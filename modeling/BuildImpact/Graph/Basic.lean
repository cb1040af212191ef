/-
Module: BuildImpact.Graph.Basic
Layer: Graphs
Purpose: Dependency graphs of build units, with the edges of a unit in the order given.
Imports: Std.Data.HashMap, Std.Data.HashSet, BuildImpact.Unit.Edge
Trusted boundary: none
Main exports: BuildGraph, BuildGraph.edges, BuildGraph.addEdge, BuildGraph.ofList,
  BuildGraph.unitSet, BuildGraph.contains, BuildGraph.SameEdges
Open obligations: none
-/
import Std.Data.HashMap
import Std.Data.HashSet
import BuildImpact.Unit.Edge

namespace BuildImpact

variable {N : Type} [BEq N] [Hashable N]

/-- A graph of build units.  A unit with an entry is a source, even when its
list is empty; every other unit is a leaf. -/
structure BuildGraph (N : Type) [BEq N] [Hashable N] where
  outgoing : Std.HashMap N (List (Edge N))

namespace BuildGraph

/-- The graph without any source. -/
def empty : BuildGraph N := ⟨∅⟩

instance : Inhabited (BuildGraph N) := ⟨empty⟩

/-- The edges out of `unit`, in the order in which they were given; a unit
without an entry has none. -/
def edges (graph : BuildGraph N) (unit : N) : List (Edge N) :=
  graph.outgoing.getD unit []

/-- Put `added` behind the edges that `source` already has, making it a source. -/
def addEdges (graph : BuildGraph N) (source : N) (added : List (Edge N)) : BuildGraph N :=
  ⟨graph.outgoing.insert source (graph.edges source ++ added)⟩

/-- Put one edge behind the edges that `source` already has. -/
def addEdge (graph : BuildGraph N) (source target : N) (kind : EdgeKind) : BuildGraph N :=
  graph.addEdges source [⟨target, kind⟩]

/-- The graph of a list of sources with their edges.  The lists of a source
that is given repeatedly are joined in the order given. -/
def ofList (entries : List (N × List (Edge N))) : BuildGraph N :=
  entries.foldl (fun graph entry => graph.addEdges entry.1 entry.2) empty

/-- The sources with their edges, in no particular order. -/
def toList (graph : BuildGraph N) : List (N × List (Edge N)) :=
  graph.outgoing.toList

/-- Every edge of the graph, in no particular order of the sources. -/
def allEdges (graph : BuildGraph N) : List (Edge N) :=
  graph.toList.flatMap (·.2)

/-- Every unit that is a source or the target of an edge. -/
def unitSet (graph : BuildGraph N) : Std.HashSet N :=
  (graph.allEdges.map (·.target)).foldl Std.HashSet.insert
    (graph.outgoing.keys.foldl Std.HashSet.insert ∅)

/-- The units of `unitSet`, each once, in no particular order. -/
def units (graph : BuildGraph N) : List N :=
  graph.unitSet.toList

/-- Whether `unit` occurs in the graph, as a source or as a target. -/
def contains (graph : BuildGraph N) (unit : N) : Bool :=
  graph.outgoing.contains unit || graph.allEdges.any (·.target == unit)

def sourceCount (graph : BuildGraph N) : Nat := graph.outgoing.size

/-- The number of edges, repeated edges counted each. -/
def edgeCount (graph : BuildGraph N) : Nat :=
  graph.outgoing.fold (fun total _ edges => total + edges.length) 0

/-- Whether the graph has no source at all. -/
def isEmpty (graph : BuildGraph N) : Bool := graph.outgoing.isEmpty

/-- Two graphs are the same when they have the same sources and every source
has the same edges in the same order. -/
def SameEdges (first second : BuildGraph N) : Prop :=
  ∀ unit : N, first.outgoing[unit]? = second.outgoing[unit]?

/-- Decide `SameEdges` by comparing the entries of both graphs. -/
def sameEdges [DecidableEq N] (first second : BuildGraph N) : Bool :=
  first.sourceCount == second.sourceCount &&
    first.toList.all fun entry => second.outgoing[entry.1]? == some entry.2

end BuildGraph

end BuildImpact
