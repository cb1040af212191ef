/-
Module: BuildImpact.Snapshot.Kind
Layer: Snapshots
Purpose: Kinds that stand alone in a JSON text.
Imports: BuildImpact.Json.Expect
Trusted boundary: none
Main exports: Snapshot.readKind, Snapshot.kindOfText
Open obligations: none
-/
import BuildImpact.Json.Expect

namespace BuildImpact.Snapshot

open Json

/-- Read a string and look its text up. -/
def readKindName {α : Type} (ofName? : String → Option α) (bytes : List UInt8) : Reading α :=
  match readString bytes with
  | .error failure => .error failure
  | .ok (name, rest) =>
    match ofName? name with
    | some kind => .ok (kind, rest)
    | none => mismatch (.unknownKind name) rest .read

/-- Read a kind: a string with its name, or an object whose one key is the name
and whose value is `null`. -/
def readKind {α : Type} (ofName? : String → Option α) (bytes : List UInt8) : Reading α :=
  match skipBlanks bytes with
  | [] => malformed .endInValue [] .read
  | first :: rest =>
    if first == 0x22 then readKindName ofName? rest
    else if first == 0x7b then
      match skipBlanks rest with
      | [] => malformed .endInObject [] .read
      | second :: after =>
        if second == 0x22 then
          match readKindName ofName? after with
          | .error failure => .error failure
          | .ok (kind, rest) =>
            match readColon rest with
            | .error failure => .error failure
            | .ok rest =>
              match readNull rest with
              | .error failure => .error failure
              | .ok rest =>
                match skipBlanks rest with
                | [] => malformed .endInObject [] .read
                | third :: after =>
                  if third == 0x7d then .ok (kind, after)
                  else malformed .valueExpected (third :: after) .glimpsed
        else if second == 0x7d then malformed .valueExpected (second :: after) .offending
        else malformed .keyNotString (second :: after) .offending
    else malformed .valueExpected (first :: rest) .offending

/-- The kind that a whole JSON text holds. -/
def kindOfText {α : Type} (ofName? : String → Option α) (source : Source) (bytes : List UInt8) :
    Except Error α :=
  match readKind ofName? bytes with
  | .error failure => .error (failure.locate source bytes)
  | .ok (kind, rest) =>
    match readEnd rest with
    | .error failure => .error (failure.locate source bytes)
    | .ok () => .ok kind

end BuildImpact.Snapshot
