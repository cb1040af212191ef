/-
Module: BuildImpact.Unit.Edge
Layer: Units
Purpose: The three kinds of edge between build units, their names, and edges.
Imports: none
Trusted boundary: none
Main exports: EdgeKind, EdgeKind.name, EdgeKind.ofName?, EdgeKind.ofName?_name,
  EdgeKind.ofName?_eq_some_iff, Edge
Open obligations: none
-/

namespace BuildImpact

/-- How a unit depends on the unit that an edge points at. -/
inductive EdgeKind where
  /-- A change of the target recompiles the source, and reaches on through the
  compile edges that lead to the source. -/
  | compile
  /-- The source shows the target's interface as its own, for this one hop. -/
  | reexport
  /-- The source needs the target only while it runs. -/
  | runtime
deriving Repr, DecidableEq, Inhabited

namespace EdgeKind

/-- The lowercase name by which snapshots write a kind. -/
def name : EdgeKind → String
  | .compile => "compile"
  | .reexport => "export"
  | .runtime => "runtime"

/-- A kind is read from its exact name only: no other case, no blanks. -/
def ofName? (text : String) : Option EdgeKind :=
  match text with
  | "compile" => some .compile
  | "export" => some .reexport
  | "runtime" => some .runtime
  | _ => none

@[simp] theorem ofName?_name (kind : EdgeKind) : ofName? kind.name = some kind := by
  cases kind <;> rfl

/-- Reading a name accepts exactly the names that are written. -/
theorem ofName?_eq_some_iff {text : String} {kind : EdgeKind} :
    ofName? text = some kind ↔ text = kind.name := by
  constructor
  · intro found
    unfold ofName? at found
    split at found <;> cases found <;> rfl
  · rintro rfl
    exact ofName?_name kind

end EdgeKind

/-- An edge out of a unit: the unit it points at, and how that unit is needed. -/
structure Edge (N : Type) where
  target : N
  kind : EdgeKind
deriving Repr, DecidableEq, Inhabited

end BuildImpact
