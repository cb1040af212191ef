/-
Module: BuildImpact.Snapshot.Load
Layer: Snapshots
Purpose: Graphs from snapshot texts, all or nothing.
Imports: BuildImpact.Graph.Basic, BuildImpact.Snapshot.Fault, BuildImpact.Snapshot.Reader
Trusted boundary: none
Main exports: Snapshot.judge, Snapshot.latest, Snapshot.build, Snapshot.load
Open obligations: none
-/
import BuildImpact.Graph.Basic
import BuildImpact.Snapshot.Fault
import BuildImpact.Snapshot.Reader

namespace BuildImpact.Snapshot

variable {N : Type} [BEq N] [Hashable N]

/-- The edges of a source, or the first name that is no kind of edge. -/
def judge : List (WrittenEdge N) → Except String (List (Edge N))
  | [] => .ok []
  | raw :: edges =>
    match EdgeKind.ofName? raw.kindName with
    | none => .error raw.kindName
    | some kind =>
      match judge edges with
      | .error name => .error name
      | .ok edges => .ok (⟨raw.target, kind⟩ :: edges)

/-- The list that counts for each source: the last one that the text gives. -/
def latest (entries : List (Entry N)) : Std.HashMap N (List (WrittenEdge N)) :=
  entries.foldl (fun kept entry => kept.insert entry.1 entry.2) ∅

/-- Judge the lists that count, source by source in the order of the text. -/
def judgeAll (kept : Std.HashMap N (List (WrittenEdge N))) :
    List N → Except String (Std.HashMap N (List (Edge N)))
  | [] => .ok ∅
  | source :: sources =>
    match judge (kept.getD source []) with
    | .error name => .error name
    | .ok edges =>
      match judgeAll kept sources with
      | .error name => .error name
      | .ok outgoing => .ok (outgoing.insert source edges)

/-- The graph of a snapshot's entries.  A list that is replaced by a later one
is not judged. -/
def build (entries : List (Entry N)) : Except String (BuildGraph N) :=
  match judgeAll (latest entries) (entries.map (·.1)) with
  | .error name => .error name
  | .ok outgoing => .ok ⟨outgoing⟩

/-- The graph of a snapshot text.  Nothing is judged before the whole text has
been read, and no part of a refused snapshot is kept. -/
def load [SnapshotId N] (source : Json.Source) (bytes : List UInt8) :
    Except Fault (BuildGraph N) :=
  match readDocument bytes with
  | .error failure => .error (.json (failure.locate source bytes))
  | .ok entries =>
    match build entries with
    | .error name => .error (.unknownKind name)
    | .ok graph => .ok graph

end BuildImpact.Snapshot
