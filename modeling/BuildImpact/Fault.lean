/-
Module: BuildImpact.Fault
Layer: Faults
Purpose: Everything that can go wrong, with one wording for each fault.
Imports: BuildImpact.Files.Fault, BuildImpact.Settings.Fault, BuildImpact.Snapshot.Fault
Trusted boundary: none
Main exports: Fault, Fault.message, Fault.cause?, Fault.isInputFault
Open obligations: none
-/
import BuildImpact.Files.Fault
import BuildImpact.Settings.Fault
import BuildImpact.Snapshot.Fault

namespace BuildImpact

/-- Why there is no answer. -/
inductive Fault where
  /-- An edge has a kind that does not exist. -/
  | unknownEdgeKind (name : String)
  /-- A text is not a snapshot. -/
  | notSnapshot (error : Json.Error)
  /-- A snapshot was opened and gave no text. -/
  | noSnapshotText (fault : FileFault)
  /-- A file could not be read. -/
  | file (fault : FileFault)
  | settings (fault : Settings.Fault)
deriving Repr, Inhabited

namespace Fault

/-- A fault of a snapshot among all faults. -/
def ofSnapshot : Snapshot.Fault → Fault
  | .json error => .notSnapshot error
  | .unknownKind name => .unknownEdgeKind name

/-- What lies behind a fault of a text or a file. -/
def cause? : Fault → Option String
  | .notSnapshot error => some error.message
  | .noSnapshotText fault => some fault.message
  | .file fault => some fault.message
  | .unknownEdgeKind _ | .settings _ => none

def message : Fault → String
  | .unknownEdgeKind name => "unhandled edge type `" ++ name ++ "`"
  | .notSnapshot error => "invalid graph snapshot: " ++ error.message
  | .noSnapshotText fault => "invalid graph snapshot: " ++ fault.message
  | .file fault => "I/O error: " ++ fault.message
  | .settings fault => "configuration error: " ++ fault.message

/-- Whether what was given is at fault, and not the reading of it. -/
def isInputFault : Fault → Bool
  | .file _ => false
  | _ => true

end Fault

end BuildImpact
