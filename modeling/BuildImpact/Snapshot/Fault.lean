/-
Module: BuildImpact.Snapshot.Fault
Layer: Snapshots
Purpose: Why a snapshot gives no graph.
Imports: BuildImpact.Json.Failure
Trusted boundary: none
Main exports: Snapshot.Fault
Open obligations: none
-/
import BuildImpact.Json.Failure

namespace BuildImpact.Snapshot

/-- Why a text is no snapshot, or why its edges make no graph. -/
inductive Fault where
  /-- The text is not JSON, or has the wrong shape. -/
  | json (error : Json.Error)
  /-- The text is a snapshot, but an edge has a kind that does not exist. -/
  | unknownKind (name : String)
deriving Repr, Inhabited

end BuildImpact.Snapshot
