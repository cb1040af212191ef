/-
Module: BuildImpact.Unit.Linkage
Layer: Units
Purpose: How a reachable unit is linked to the root of a closure, strongest first.
Imports: none
Trusted boundary: none
Main exports: Linkage, Linkage.name, Linkage.ofName?, Linkage.all, Linkage.rank
Open obligations: none
-/

namespace BuildImpact

/-- The relationship of a reachable unit to the root of a closure. -/
inductive Linkage where
  /-- A change of the unit recompiles the root. -/
  | compile
  /-- The root shows the unit's interface directly. -/
  | reexport
  /-- The unit is needed only while the root runs. -/
  | runtime
deriving Repr, DecidableEq, Inhabited

namespace Linkage

/-- The lowercase name used in every output. -/
def name : Linkage → String
  | .compile => "compile"
  | .reexport => "export"
  | .runtime => "runtime"

/-- A relationship is read from its exact name only. -/
def ofName? (text : String) : Option Linkage :=
  match text with
  | "compile" => some .compile
  | "export" => some .reexport
  | "runtime" => some .runtime
  | _ => none

@[simp] theorem ofName?_name (linkage : Linkage) : ofName? linkage.name = some linkage := by
  cases linkage <;> rfl

/-- Every relationship, the strongest first. -/
def all : List Linkage := [.compile, .reexport, .runtime]

/-- The place of a relationship in `all`: smaller is stronger. -/
def rank (linkage : Linkage) : Nat := all.idxOf linkage

end Linkage

end BuildImpact
