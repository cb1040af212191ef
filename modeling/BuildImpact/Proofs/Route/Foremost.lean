/-
Module: BuildImpact.Proofs.Route.Foremost
Layer: Proofs
Purpose: The foremost walk to a unit: one with the least number of hops, and among those
  the first in the order of the places that its edges take among the edges of their units,
  the first hop compared first.  There is one at most, and the way to its last hop is
  foremost itself.  So records whose parents are those of foremost walks are traced back
  along them.
Imports: Mathlib.Data.List.Lex, BuildImpact.Proofs.Route.Shortest
Trusted boundary: none
Main exports: Walk.Placed, Route.Course, Route.course_iff_placed, Route.Foremost,
  Route.Foremost.unique, Route.Foremost.last_hop, Route.Foremost.prefix_of_units,
  Route.Charted, Route.Charted.routeTo?_eq_some_iff
Open obligations: none
-/
import Mathlib.Data.List.Lex
import BuildImpact.Proofs.Route.Shortest

namespace BuildImpact

variable {N : Type} [BEq N] [Hashable N] {graph : BuildGraph N}

/-! ### Walks by the places of their edges -/

namespace Walk

/-- A walk along the listed edges, each of which stands at the position listed for it
among the edges of its unit. -/
inductive Placed (graph : BuildGraph N) : N → List (Edge N) → List Nat → N → Prop where
  | stay (unit : N) : Placed graph unit [] [] unit
  | hop {source target : N} {edge : Edge N} {edges : List (Edge N)} {position : Nat}
      {positions : List Nat} (given : (graph.edges source)[position]? = some edge)
      (onward : Placed graph edge.target edges positions target) :
      Placed graph source (edge :: edges) (position :: positions) target

namespace Placed

variable {source middle target : N} {edges others : List (Edge N)} {positions : List Nat}

theorem walk (placed : Placed graph source edges positions target) :
    Walk graph source edges target := by
  induction placed with
  | stay unit => exact .stay unit
  | hop given _ inductionHypothesis => exact .hop (List.mem_of_getElem? given) inductionHypothesis

/-- A walk along placed edges goes on along an edge of its last unit. -/
theorem snoc {edge : Edge N} {position : Nat} (placed : Placed graph source edges positions middle)
    (given : (graph.edges middle)[position]? = some edge) :
    Placed graph source (edges ++ [edge]) (positions ++ [position]) edge.target := by
  induction placed with
  | stay => exact .hop given (.stay edge.target)
  | hop first _ inductionHypothesis => exact .hop first (inductionHypothesis given)

/-- The positions determine the walk. -/
theorem functional {other : N} (one : Placed graph source edges positions target)
    (two : Placed graph source others positions other) : edges = others ∧ target = other := by
  induction one generalizing others with
  | stay =>
      cases two
      exact ⟨rfl, rfl⟩
  | hop given _ inductionHypothesis =>
      cases two with
      | hop isGiven onward =>
          cases given.symm.trans isGiven
          obtain ⟨rfl, rfl⟩ := inductionHypothesis onward
          exact ⟨rfl, rfl⟩

end Placed

/-- The unit of a walk before the last one. -/
def before? (source : N) (edges : List (Edge N)) : Option N :=
  (units source edges).dropLast.getLast?

theorem before?_snoc {source middle : N} {edges : List (Edge N)}
    (walk : Walk graph source edges middle) (edge : Edge N) :
    before? source (edges ++ [edge]) = some middle := by
  rw [before?, units_snoc, List.dropLast_concat, walk.getLast?_units]

end Walk

namespace Route

open Walk (Placed)

/-! ### Courses of a search -/

/-- `Course graph gate source edges positions unit`: a walk from `source` to `unit` along
`edges`, which stand at `positions` and of which `gate` admits the first. -/
inductive Course (graph : BuildGraph N) (gate : Gate) (source : N) :
    List (Edge N) → List Nat → N → Prop where
  | start : Course graph gate source [] [] source
  | hop {edges : List (Edge N)} {positions : List Nat} {unit : N} {edge : Edge N} {position : Nat}
      (earlier : Course graph gate source edges positions unit)
      (given : (graph.edges unit)[position]? = some edge)
      (admitted : 0 < edges.length ∨ gate.admits edge.kind = true) :
      Course graph gate source (edges ++ [edge]) (positions ++ [position]) edge.target

variable {gate : Gate} {source unit : N} {depth : Nat} {edges others : List (Edge N)}
  {positions otherPositions : List Nat}

namespace Course

/-- A course of some hops goes on along any placed edges. -/
theorem append {target : N} (course : Course graph gate source edges positions unit)
    (positive : 0 < edges.length) (placed : Placed graph unit others otherPositions target) :
    Course graph gate source (edges ++ others) (positions ++ otherPositions) target := by
  induction placed generalizing edges positions with
  | stay => simpa using course
  | hop given _ inductionHypothesis =>
      have onward := inductionHypothesis (course.hop given (.inl positive)) (by simp)
      simpa using onward

theorem length_eq (course : Course graph gate source edges positions unit) :
    positions.length = edges.length := by
  induction course with
  | start => rfl
  | hop _ _ _ inductionHypothesis => simp [inductionHypothesis]

end Course

/-- Courses are the walks along placed edges that begin as the gate demands. -/
theorem course_iff_placed :
    Course graph gate source edges positions unit ↔
      Placed graph source edges positions unit ∧ gate.Opens edges := by
  constructor
  · intro course
    induction course with
    | start => exact ⟨.stay source, nofun⟩
    | hop _ given admitted inductionHypothesis =>
        exact ⟨inductionHypothesis.1.snoc given, inductionHypothesis.2.snoc admitted⟩
  · rintro ⟨placed, opens⟩
    cases placed with
    | stay => exact .start
    | hop given onward =>
        exact (Course.start.hop given (.inr (opens _ rfl))).append (by simp) onward

namespace Course

theorem walk (course : Course graph gate source edges positions unit) :
    Walk graph source edges unit :=
  (course_iff_placed.mp course).1.walk

theorem arrives (course : Course graph gate source edges positions unit) :
    Arrives graph gate source edges.length unit :=
  arrives_iff_walk.mpr ⟨edges, course.walk, (course_iff_placed.mp course).2, rfl⟩

/-- The positions determine the course. -/
theorem functional {other : N} (one : Course graph gate source edges positions unit)
    (two : Course graph gate source others positions other) : edges = others ∧ unit = other :=
  (course_iff_placed.mp one).1.functional (course_iff_placed.mp two).1

end Course

/-- Wherever one arrives, a course leads. -/
theorem exists_course (arrives : Arrives graph gate source depth unit) :
    ∃ edges positions, Course graph gate source edges positions unit ∧ edges.length = depth := by
  induction arrives with
  | start => exact ⟨[], [], .start, rfl⟩
  | hop _ given admitted inductionHypothesis =>
      obtain ⟨edges, positions, course, rfl⟩ := inductionHypothesis
      obtain ⟨position, isGiven⟩ := List.mem_iff_getElem?.mp given
      exact ⟨_, _, course.hop isGiven admitted, by simp⟩

/-! ### The foremost course -/

/-- Equally long lists that are prolonged alike are compared as before. -/
theorem append_lt_of_lt {first second : List Nat} (same : first.length = second.length)
    (less : first < second) (more : List Nat) : first ++ more < second := by
  induction first generalizing second with
  | nil =>
      cases List.length_eq_zero_iff.mp same.symm
      exact absurd less (lt_irrefl _)
  | cons position first inductionHypothesis =>
      cases second with
      | nil => cases same
      | cons other second =>
          rw [List.cons_append, List.cons_lt_cons_iff]
          refine (List.cons_lt_cons_iff.mp less).imp_right ?_
          exact And.imp_right (inductionHypothesis (Nat.succ.inj same))

theorem le_of_append_le {first second more : List Nat} (same : first.length = second.length)
    (bound : first ++ more ≤ second ++ more) : first ≤ second := by
  by_contra greater
  have less : second ++ more < first := append_lt_of_lt same.symm (not_le.mp greater) more
  exact absurd (List.Lex.append_right _ more less) (not_lt.mpr bound)

/-- A course with the least number of hops that counts, which no other one of as many
hops precedes. -/
structure Foremost (graph : BuildGraph N) (gate : Gate) (source : N) (edges : List (Edge N))
    (positions : List Nat) (unit : N) : Prop where
  course : Course graph gate source edges positions unit
  nearest : Nearest graph gate source edges.length unit
  first : ∀ others otherPositions, Course graph gate source others otherPositions unit →
    others.length = edges.length → positions ≤ otherPositions

namespace Foremost

/-- There is one foremost course to a unit. -/
theorem unique (one : Foremost graph gate source edges positions unit)
    (two : Foremost graph gate source others otherPositions unit) : edges = others := by
  have same := one.nearest.unique two.nearest
  have before := one.first others otherPositions two.course same.symm
  cases le_antisymm before (two.first edges positions one.course same)
  exact (one.course.functional two.course).1

/-- The way to the last hop of a foremost course is foremost itself, if it counts. -/
theorem last_hop {edge : Edge N} {position : Nat}
    (earlier : Course graph gate source edges positions unit)
    (given : (graph.edges unit)[position]? = some edge)
    (admitted : 0 < edges.length ∨ gate.admits edge.kind = true)
    (foremost : Foremost graph gate source (edges ++ [edge]) (positions ++ [position]) edge.target)
    (counts : gate.Counts edges.length) :
    Foremost graph gate source edges positions unit := by
  -- A shorter or an earlier way to `unit` would go on along `edge` and be one to its target.
  obtain ⟨_, nearest, first⟩ := foremost
  rw [List.length_append, List.length_singleton] at nearest
  refine ⟨earlier, ?_, fun others otherPositions course same => ?_⟩
  · rcases earlier.arrives.onLayer (List.mem_of_getElem? given) nearest with
      ⟨atSource, rfl⟩ | nearer
    · exact ⟨counts, earlier.arrives, fun other _ _ => atSource ▸ Nat.zero_le other⟩
    · exact nearer
  · have bound := first _ _ (course.hop given (same ▸ admitted)) (by simp [same])
    refine le_of_append_le ?_ bound
    rw [earlier.length_eq, course.length_eq, same]

/-- Without a gate every prefix of a foremost course is foremost. -/
theorem prefix_of_units {front back : List N}
    (foremost : Foremost graph .anyEdge source edges positions unit) {middle : N}
    (parts : Walk.units source edges = front ++ middle :: back) :
    ∃ before beforePositions, Foremost graph .anyEdge source before beforePositions middle ∧
      Walk.units source before = front ++ [middle] := by
  induction back using List.reverseRecOn generalizing edges positions unit with
  | nil =>
      have last := foremost.course.walk.getLast?_units
      rw [parts, List.getLast?_concat] at last
      cases last
      exact ⟨edges, positions, foremost, parts⟩
  | append_singleton back last inductionHypothesis =>
      cases course : foremost.course with
      | start =>
          have short := congrArg List.length parts
          simp only [Walk.length_units, List.length_append, List.length_cons] at short
          omega
      | hop earlier given admitted =>
          rw [Walk.units_snoc, ← List.cons_append, ← List.append_assoc] at parts
          have onward := List.append_inj_left' parts rfl
          exact inductionHypothesis (foremost.last_hop earlier given admitted nofun) onward

end Foremost

/-! ### Tracing a foremost course -/

/-- Whether records are those of foremost courses: each has the number of hops and the
last parent of the foremost course to its unit, and no unit to which one leads is left out. -/
structure Charted (graph : BuildGraph N) (gate : Gate) (source : N) (records : Records N) :
    Prop where
  foremost : ∀ unit record, records[unit]? = some record →
    ∃ edges positions, Foremost graph gate source edges positions unit ∧
      record = ⟨edges.length, Walk.before? source edges⟩
  complete : ∀ unit depth, Nearest graph gate source depth unit → unit ∈ records

namespace Charted

variable [LawfulBEq N] {records : Records N}

/-- Such records hold the foremost course to a unit. -/
theorem getElem?_of_foremost (charted : Charted graph gate source records)
    (foremost : Foremost graph gate source edges positions unit) :
    records[unit]? = some ⟨edges.length, Walk.before? source edges⟩ := by
  have member := charted.complete unit _ foremost.nearest
  have found := Std.HashMap.getElem?_eq_some_getElem member
  obtain ⟨_, _, recorded, same⟩ := charted.foremost unit _ found
  cases recorded.unique foremost
  rw [found, same]

/-- The way back from a unit gives the units of its foremost course. -/
theorem trace_eq_units (charted : Charted graph gate source records)
    (foremost : Foremost graph gate source edges positions unit) (route : List N) :
    trace records ⟨edges.length, Walk.before? source edges⟩ (unit :: route) =
      Walk.units source edges ++ route := by
  have course := foremost.course
  induction course generalizing route with
  | start =>
      rw [trace]
      rfl
  | @hop edges positions middle edge position earlier given admitted inductionHypothesis =>
      rw [Walk.before?_snoc earlier.walk]
      by_cases onward : ∃ known, records[middle]? = some known ∧
          known.depth < (edges ++ [edge]).length
      · obtain ⟨known, found, less⟩ := onward
        have counts : gate.Counts edges.length := by
          obtain ⟨_, _, recorded, rfl⟩ := charted.foremost middle known found
          intro gated
          have positive := recorded.nearest.counts gated
          simp at less
          omega
        have before := foremost.last_hop earlier given admitted counts
        cases (charted.getElem?_of_foremost before).symm.trans found
        rw [trace_onward found less, inductionHypothesis before, Walk.units_snoc]
        simp
      · -- The way back ends only at the source: behind the gate it may have no record, or
        -- that of a cycle, which is no nearer than the first hop.
        have isStart : edges = [] := by
          by_contra further
          have positive := List.length_pos_iff.mpr further
          have before := foremost.last_hop earlier given admitted (gate.counts_of_pos positive)
          exact onward ⟨_, charted.getElem?_of_foremost before, by simp⟩
        subst isStart
        cases earlier.arrives.eq_source
        exact trace_ends onward _

/-- In such records the route to a unit is the foremost course to it. -/
theorem routeTo?_eq_some_iff (charted : Charted graph gate source records) {route : List N} :
    routeTo? records unit = some route ↔
      ∃ edges positions, Foremost graph gate source edges positions unit ∧
        route = Walk.units source edges := by
  rw [routeTo?, Option.map_eq_some_iff]
  constructor
  · rintro ⟨record, found, rfl⟩
    obtain ⟨edges, positions, foremost, rfl⟩ := charted.foremost unit record found
    exact ⟨edges, positions, foremost, by rw [charted.trace_eq_units foremost, List.append_nil]⟩
  · rintro ⟨edges, positions, foremost, rfl⟩
    exact ⟨_, charted.getElem?_of_foremost foremost,
      by rw [charted.trace_eq_units foremost, List.append_nil]⟩

end Charted

end Route

end BuildImpact
