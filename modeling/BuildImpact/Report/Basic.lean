/-
Module: BuildImpact.Report.Basic
Layer: Reports
Purpose: The answers to queries, and the groups in which they are shown.
Imports: BuildImpact.Unit.Linkage
Trusted boundary: none
Main exports: Report, Report.linkageGroup, Report.depthGroups, Report.deepest
Open obligations: none
-/
import BuildImpact.Unit.Linkage

namespace BuildImpact

/-- The answer to a query.  Units are listed in the order in which they are
shown. -/
inductive Report where
  /-- The other units that recompile `root`. -/
  | impact (root : String) (units : List String)
  /-- The other units that `root` reaches, with their links. -/
  | closure (root : String) (links : List (String × Linkage))
  /-- The units that `root` reaches, itself included, with their depths. -/
  | depths (root : String) (depths : List (String × Nat))
  /-- A route with the fewest edges, if there is one. -/
  | route (source target : String) (isGated : Bool) (route : Option (List String))
  /-- For each unit, the roots that it recompiles; `roots` were looked at. -/
  | affected (roots : Nat) (entries : List (String × List String))
deriving Repr, DecidableEq, Inhabited

namespace Report

/-- The units with a link. -/
def linkageGroup (links : List (String × Linkage)) (linkage : Linkage) : List String :=
  (links.filter (·.2 == linkage)).map (·.1)

/-- The units at a depth. -/
def depthGroup (depths : List (String × Nat)) (depth : Nat) : List String :=
  (depths.filter (·.2 == depth)).map (·.1)

/-- The largest depth; zero if there is none. -/
def deepest (depths : List (String × Nat)) : Nat := (depths.map (·.2)).foldl max 0

/-- The depths below the root at which there are units, with these units. -/
def depthGroups (depths : List (String × Nat)) : List (Nat × List String) :=
  ((List.range' 1 (deepest depths)).map fun depth => (depth, depthGroup depths depth)).filter
    (!·.2.isEmpty)

end Report

end BuildImpact
