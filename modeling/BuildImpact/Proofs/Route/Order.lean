/-
Module: BuildImpact.Proofs.Route.Order
Layer: Proofs
Purpose: In which order a search for routes comes to its units.  Each arrival has come along
  a course, and the arrivals of a layer wait in the order of the positions of their courses:
  a visit puts the continuations of its own course, in their order, in front of all courses
  that still wait.  No shortest course to a unit without a record is left out, so a unit is
  recorded by the foremost course to it, and routes break ties by the order of edges.
Imports: BuildImpact.Proofs.Route.Foremost
Trusted boundary: none
Main exports: Route.CameAlong, Route.continuations, Route.Ordered, Route.kept_ordered,
  Route.charted_routeRecords, BuildGraph.routes_break_ties
Open obligations: none
-/
import BuildImpact.Proofs.Route.Foremost

namespace BuildImpact

variable {N : Type} [BEq N] [Hashable N] {graph : BuildGraph N}

open Layers (Arrival)

namespace Route

variable {gate : Gate} {source : N}

/-! ### The courses of arrivals -/

/-- Whether an arrival on the layer at `depth` came along the course with these
positions. -/
def CameAlong (graph : BuildGraph N) (gate : Gate) (source : N) (depth : Nat)
    (positions : List Nat) (arrival : Arrival N) : Prop :=
  ∃ edges, Course graph gate source edges positions arrival.unit ∧ edges.length = depth ∧
    arrival.via = Walk.before? source edges

/-- The courses along which the followed edges of a unit lead on, where the unit itself
was reached by `course`. -/
def continuations (graph : BuildGraph N) (gate : Gate) (records : Records N)
    (arrival : Arrival N) (course : List Nat) : List (List Nat) :=
  ((graph.edges arrival.unit).zipIdx.filter fun place => followed gate records arrival place.1).map
    fun place => course ++ [place.2]

/-- What holds while the layer at `depth` is visited: `courses` are the positions of the
courses of `current`, and `coming` those of `next`. -/
structure Ordered (graph : BuildGraph N) (gate : Gate) (source : N) (depth : Nat)
    (current next : List (Arrival N)) (records : Records N)
    (courses coming : List (List Nat)) : Prop where
  frontier : Frontier graph gate source depth current next records
  arriving : List.Forall₂ (CameAlong graph gate source depth) courses current
  leaving : List.Forall₂ (CameAlong graph gate source (depth + 1)) coming next
  /-- What goes on from the visited part of the layer precedes what still waits. -/
  sorted : (coming.reverse ++ courses).Pairwise (· < ·)
  /-- Every course of this layer to a nearest unit without a record waits. -/
  level : ∀ edges positions unit, Course graph gate source edges positions unit →
    edges.length = depth → Nearest graph gate source depth unit →
      unit ∈ records ∨ positions ∈ courses
  /-- Every course of this layer waits or has gone on along all edges that count. -/
  scanned : ∀ edges positions unit, Course graph gate source edges positions unit →
    edges.length = depth → OnLayer graph gate source depth unit →
      positions ∈ courses ∨ ∀ edge position, (graph.edges unit)[position]? = some edge →
        0 < depth ∨ gate.admits edge.kind = true →
          edge.target ∈ records ∨ positions ++ [position] ∈ coming
  /-- Records are those of foremost courses. -/
  foremost : ∀ unit record, records[unit]? = some record →
    ∃ edges positions, Foremost graph gate source edges positions unit ∧
      record = ⟨edges.length, Walk.before? source edges⟩

variable {depth : Nat} {arrival : Arrival N} {waiting next : List (Arrival N)}
  {records : Records N} {course : List Nat} {courses coming : List (List Nat)}

theorem CameAlong.length_eq (came : CameAlong graph gate source depth course arrival) :
    course.length = depth := by
  obtain ⟨edges, isCourse, rfl, _⟩ := came
  exact isCourse.length_eq

/-- A course that leads as an arrival's does has come to its unit. -/
theorem CameAlong.unit_eq {edges : List (Edge N)} {unit : N}
    (came : CameAlong graph gate source depth course arrival)
    (isCourse : Course graph gate source edges course unit) : unit = arrival.unit := by
  obtain ⟨_, along, _, _⟩ := came
  exact (isCourse.functional along).2

theorem mem_continuations_iff {positions : List Nat} :
    positions ∈ continuations graph gate records arrival course ↔
      ∃ edge position, (graph.edges arrival.unit)[position]? = some edge ∧
        followed gate records arrival edge = true ∧ positions = course ++ [position] := by
  simp only [continuations, List.mem_map, List.mem_filter, Prod.exists,
    List.mk_mem_zipIdx_iff_getElem?, and_assoc, eq_comm]

/-- A visit goes on along its edges in their order. -/
theorem pairwise_continuations :
    (continuations graph gate records arrival course).Pairwise (· < ·) := by
  have places : ((graph.edges arrival.unit).zipIdx.map (·.2)).Pairwise (· < ·) := by
    rw [List.zipIdx_map_snd]
    exact List.pairwise_lt_range'
  refine List.pairwise_map.mpr ((List.pairwise_map.mp places).filter _ |>.imp fun less => ?_)
  exact List.Lex.append_left _ (.rel less) course

variable [LawfulBEq N]

/-- Each followed edge puts an arrival on the next layer that has come along the
continuation by that edge. -/
theorem cameAlong_continuations (came : CameAlong graph gate source depth course arrival)
    (atDepth : arrival.depth = depth) :
    List.Forall₂ (CameAlong graph gate source (depth + 1))
      (continuations graph gate records arrival course)
      (((graph.edges arrival.unit).filter (followed gate records arrival)).map
        fun edge => ⟨edge.target, some arrival.unit, arrival.depth + 1⟩) := by
  obtain ⟨edges, isCourse, rfl, _⟩ := came
  have placed : (graph.edges arrival.unit).filter (followed gate records arrival) =
      ((graph.edges arrival.unit).zipIdx.filter
        fun place => followed gate records arrival place.1).map (·.1) := by
    conv_lhs => rw [← List.zipIdx_map_fst 0 (graph.edges arrival.unit)]
    rw [List.filter_map]
    rfl
  rw [placed, continuations, List.map_map, List.forall₂_map_left_iff, List.forall₂_map_right_iff,
    List.forall₂_same]
  rintro ⟨edge, position⟩ member
  obtain ⟨given, follows⟩ := List.mem_filter.mp member
  have isGiven := List.mk_mem_zipIdx_iff_getElem?.mp given
  obtain ⟨_, admitted⟩ := followed_iff.mp follows
  rw [atDepth] at admitted
  exact ⟨edges ++ [edge], isCourse.hop isGiven admitted, by simp,
    (Walk.before?_snoc isCourse.walk edge).symm⟩

namespace Ordered

omit [LawfulBEq N] in
/-- The course of the unit at hand precedes all others that wait. -/
theorem lt_of_waiting
    (ordered : Ordered graph gate source depth (arrival :: waiting) next records
      (course :: courses) coming) : ∀ later ∈ courses, course < later :=
  (List.pairwise_cons.mp (List.pairwise_append.mp ordered.sorted).2.1).1

omit [LawfulBEq N] in
/-- A unit that is recorded now is recorded by the foremost course to it: any other
shortest course to it still waits. -/
theorem foremost_of_new
    (ordered : Ordered graph gate source depth (arrival :: waiting) next records
      (course :: courses) coming)
    (new : arrival.unit ∉ records) (nearest : Nearest graph gate source depth arrival.unit) :
    ∃ edges positions, Foremost graph gate source edges positions arrival.unit ∧
      (⟨depth, arrival.via⟩ : Record N) = ⟨edges.length, Walk.before? source edges⟩ := by
  obtain ⟨came, _⟩ := List.forall₂_cons.mp ordered.arriving
  obtain ⟨edges, isCourse, rfl, via⟩ := came
  refine ⟨edges, course, ⟨isCourse, nearest, fun others otherPositions other same => ?_⟩, ?_⟩
  · have waits := (ordered.level others otherPositions arrival.unit other same nearest).resolve_left
      new
    rcases List.mem_cons.mp waits with rfl | later
    · exact le_rfl
    · exact (ordered.lt_of_waiting otherPositions later).le
  · rw [via]

/-- Noting an arrival keeps the order. -/
theorem noted
    (ordered : Ordered graph gate source depth (arrival :: waiting) next records
      (course :: courses) coming) :
    Ordered graph gate source depth (arrival :: waiting) next (note gate records arrival)
      (course :: courses) coming := by
  rcases ordered.frontier.note_cases with ⟨same, _⟩ | ⟨same, new, nearest⟩
  · rwa [same]
  · have noted := ordered.frontier.noted
    rw [same] at noted ⊢
    have kept : ∀ unit ∈ records, unit ∈ records.insert arrival.unit ⟨depth, arrival.via⟩ :=
      fun unit member => Std.HashMap.mem_insert.mpr (.inr member)
    refine ⟨noted, ordered.arriving, ordered.leaving, ordered.sorted, ?_, ?_, ?_⟩
    · intro edges positions unit isCourse length near
      exact (ordered.level edges positions unit isCourse length near).imp_left (kept unit)
    · intro edges positions unit isCourse length onLayer
      refine (ordered.scanned edges positions unit isCourse length onLayer).imp_right ?_
      intro led edge position given admitted
      exact (led edge position given admitted).imp_left (kept edge.target)
    · intro unit record found
      rw [Std.HashMap.getElem?_insert] at found
      split at found
      · rename_i isUnit
        cases eq_of_beq isUnit
        cases found
        exact ordered.foremost_of_new new nearest
      · exact ordered.foremost unit record found

omit [LawfulBEq N] in
theorem length_eq_of_mem {current : List (Arrival N)}
    (ordered : Ordered graph gate source depth current next records courses coming) :
    ∀ waits ∈ courses, waits.length = depth :=
  ((List.forall₂_and_left _ _).mp
    (ordered.arriving.imp fun _ _ came => ⟨came.length_eq, came⟩)).1

omit [LawfulBEq N] in
/-- The continuations of the course at hand follow on those before and precede all
courses that still wait. -/
theorem sorted_led
    (ordered : Ordered graph gate source depth (arrival :: waiting) next records
      (course :: courses) coming) :
    (coming.reverse ++ continuations graph gate records arrival course ++ courses).Pairwise
      (· < ·) := by
  obtain ⟨before, waits, across⟩ := List.pairwise_append.mp ordered.sorted
  have prolongs : ∀ later ∈ continuations graph gate records arrival course,
      ∃ position, later = course ++ [position] := by
    intro later member
    obtain ⟨_, position, _, _, same⟩ := mem_continuations_iff.mp member
    exact ⟨position, same⟩
  have begun : (coming.reverse ++ continuations graph gate records arrival course).Pairwise
      (· < ·) := by
    apply List.pairwise_append.mpr
    refine ⟨before, pairwise_continuations, ?_⟩
    intro earlier member later isLater
    obtain ⟨position, rfl⟩ := prolongs later isLater
    exact List.Lex.append_right _ _ (across earlier member course List.mem_cons_self)
  apply List.pairwise_append.mpr
  refine ⟨begun, (List.pairwise_cons.mp waits).2, ?_⟩
  intro earlier member later isLater
  rcases List.mem_append.mp member with old | fresh
  · exact across earlier old later (List.mem_cons_of_mem _ isLater)
  · -- The courses of a layer are equally long, so `course` differs from a later one within
    -- its own length, and going on does not change which comes first.
    obtain ⟨position, rfl⟩ := prolongs earlier fresh
    have same : course.length = later.length := by
      rw [ordered.length_eq_of_mem course List.mem_cons_self,
        ordered.length_eq_of_mem later (List.mem_cons_of_mem _ isLater)]
    exact append_lt_of_lt same (ordered.lt_of_waiting later isLater) _

/-- The edges of a unit lead on along the continuations of its course, once the unit is
recorded where it has to be. -/
theorem led
    (ordered : Ordered graph gate source depth (arrival :: waiting) next records
      (course :: courses) coming)
    (recorded : Nearest graph gate source depth arrival.unit → arrival.unit ∈ records) :
    Ordered graph gate source depth waiting
      ((((graph.edges arrival.unit).filter (followed gate records arrival)).map
        fun edge => ⟨edge.target, some arrival.unit, arrival.depth + 1⟩).reverse ++ next)
      records courses
      ((continuations graph gate records arrival course).reverse ++ coming) := by
  obtain ⟨came, others⟩ := List.forall₂_cons.mp ordered.arriving
  have atDepth := (ordered.frontier.arriving arrival List.mem_cons_self).1.depth_eq
  refine ⟨ordered.frontier.led recorded, others, ?_, ?_, ?_, ?_, ordered.foremost⟩
  · exact List.rel_append (List.forall₂_reverse_iff.mpr (cameAlong_continuations came atDepth))
      ordered.leaving
  · rw [List.reverse_append, List.reverse_reverse]
    exact ordered.sorted_led
  · intro edges positions unit isCourse length nearest
    rcases ordered.level edges positions unit isCourse length nearest with member | waits
    · exact .inl member
    · rcases List.mem_cons.mp waits with rfl | later
      · cases came.unit_eq isCourse
        exact .inl (recorded nearest)
      · exact .inr later
  · intro edges positions unit isCourse length onLayer
    rcases ordered.scanned edges positions unit isCourse length onLayer with waits | led
    · rcases List.mem_cons.mp waits with rfl | later
      · cases came.unit_eq isCourse
        refine .inr fun edge position given admitted => or_iff_not_imp_left.mpr fun new => ?_
        have follows : followed gate records arrival edge = true :=
          followed_iff.mpr ⟨new, atDepth ▸ admitted⟩
        exact List.mem_append_left _ (List.mem_reverse.mpr
          (mem_continuations_iff.mpr ⟨edge, position, given, follows, rfl⟩))
      · exact .inl later
    · exact .inr fun edge position given admitted =>
        (led edge position given admitted).imp_right (List.mem_append_right _)

theorem visit
    (ordered : Ordered graph gate source depth (arrival :: waiting) next records
      (course :: courses) coming) :
    ∃ coming, Ordered graph gate source depth waiting
      (Layers.visit graph (recorder gate) arrival next records).1
      (Layers.visit graph (recorder gate) arrival next records).2 courses coming := by
  rw [visit_recorder]
  exact ⟨_, ordered.noted.led ordered.frontier.recorded⟩

/-- The change to the next layer keeps the order. -/
theorem change (ordered : Ordered graph gate source depth [] next records [] coming) :
    Ordered graph gate source (depth + 1) next.reverse [] records coming.reverse [] := by
  -- A shortest course to the next layer goes on from a course of this one, and these have
  -- all gone on: nothing is left to visit.
  have level : ∀ edges positions unit, Course graph gate source edges positions unit →
      edges.length = depth + 1 → Nearest graph gate source (depth + 1) unit →
        unit ∈ records ∨ positions ∈ coming.reverse := by
    intro edges positions unit isCourse length nearest
    cases isCourse with
    | start => cases length
    | hop earlier given admitted =>
        rw [List.length_append, List.length_singleton, Nat.add_right_cancel_iff] at length
        subst length
        have onLayer := earlier.arrives.onLayer (List.mem_of_getElem? given) nearest
        rcases ordered.scanned _ _ _ earlier rfl onLayer with waits | led
        · cases waits
        · exact (led _ _ given admitted).imp_right List.mem_reverse.mpr
  refine ⟨ordered.frontier.change, List.forall₂_reverse_iff.mpr ordered.leaving, .nil, ?_, level,
    ?_, ordered.foremost⟩
  · simpa using ordered.sorted
  · intro edges positions unit isCourse length onLayer
    rcases onLayer with ⟨positive, _⟩ | nearest
    · cases positive
    · refine .inl ((level edges positions unit isCourse length nearest).resolve_left ?_)
      intro member
      have found := Std.HashMap.getElem?_eq_some_getElem member
      obtain ⟨known, bound⟩ := ordered.frontier.nearest unit _ found
      have same := known.unique nearest
      omega

end Ordered

theorem kept_ordered : Layers.Kept graph (recorder gate) fun depth current next records =>
    ∃ courses coming, Ordered graph gate source depth current next records courses coming := by
  refine ⟨?_, ?_⟩
  · rintro depth arrival waiting next records ⟨courses, coming, ordered⟩
    cases courses with
    | nil => cases ordered.arriving
    | cons course courses => exact ⟨courses, ordered.visit⟩
  · rintro depth next records ⟨courses, coming, ordered⟩
    cases ordered.arriving
    exact ⟨_, _, ordered.change⟩

omit [LawfulBEq N] in
/-- A search begins with the course of no hops. -/
theorem ordered_start (graph : BuildGraph N) (gate : Gate) (source : N) :
    Ordered graph gate source 0 [⟨source, none, 0⟩] [] (∅ : Records N) [[]] [] := by
  have waits : ∀ edges positions unit, Course graph gate source edges positions unit →
      edges.length = 0 → positions ∈ [([] : List Nat)] := by
    intro edges positions unit isCourse noHops
    rw [← isCourse.length_eq, List.length_eq_zero_iff] at noHops
    rw [noHops]
    exact List.mem_singleton_self _
  refine ⟨frontier_start graph gate source, .cons ⟨[], .start, rfl, rfl⟩ .nil, .nil,
    List.pairwise_singleton _ _, ?_, ?_, ?_⟩
  · exact fun edges positions unit isCourse noHops _ =>
      .inr (waits edges positions unit isCourse noHops)
  · exact fun edges positions unit isCourse noHops _ =>
      .inl (waits edges positions unit isCourse noHops)
  · intro unit record found
    simp at found

/-- The records of a search are those of foremost courses. -/
theorem charted_routeRecords (graph : BuildGraph N) (gate : Gate) (source : N) :
    Charted graph gate source (graph.routeRecords gate source) := by
  obtain ⟨_, courses, coming, ordered⟩ :=
    kept_ordered.walk ⟨_, _, ordered_start graph gate source⟩
      fun ⟨_, _, ordered⟩ => ordered.frontier.depth_lt_budget
  exact ⟨ordered.foremost, fun _ _ nearest => records_complete nearest⟩

/-- Whether a walk along these edges is one for a search: behind the gate it has a first
edge, which is a compile edge. -/
def Gate.Begins : Gate → List (Edge N) → Prop
  | .anyEdge, _ => True
  | .compileEdge, edges => edges.head?.map (·.kind) = some .compile

omit [BEq N] [Hashable N] [LawfulBEq N] in
theorem Gate.begins_iff {edges : List (Edge N)} :
    gate.Begins edges ↔ gate.Opens edges ∧ gate.Counts edges.length := by
  cases gate with
  | anyEdge => exact iff_of_true trivial ⟨fun _ _ => rfl, nofun⟩
  | compileEdge => cases edges <;> simp [Begins, Opens, Counts, admits]

omit [LawfulBEq N] in
/-- A foremost course is a shortest one of the walks for the search, and the first of
these by its positions. -/
theorem foremost_iff_placed {target : N} {edges : List (Edge N)} {positions : List Nat} :
    Foremost graph gate source edges positions target ↔
      Walk.Placed graph source edges positions target ∧ gate.Begins edges ∧
        ∀ others otherPositions, Walk.Placed graph source others otherPositions target →
          gate.Begins others → edges.length ≤ others.length ∧
            (others.length = edges.length → positions ≤ otherPositions) := by
  simp only [Gate.begins_iff]
  constructor
  · rintro ⟨course, nearest, first⟩
    obtain ⟨placed, opens⟩ := course_iff_placed.mp course
    refine ⟨placed, ⟨opens, nearest.counts⟩, ?_⟩
    rintro others otherPositions otherPlaced ⟨otherOpens, counts⟩
    have other := course_iff_placed.mpr ⟨otherPlaced, otherOpens⟩
    exact ⟨nearest.least _ counts other.arrives, first others otherPositions other⟩
  · rintro ⟨placed, ⟨opens, counts⟩, least⟩
    have course := course_iff_placed.mpr ⟨placed, opens⟩
    refine ⟨course, ⟨counts, course.arrives, fun hops otherCounts arrives => ?_⟩, ?_⟩
    · obtain ⟨others, otherPositions, other, rfl⟩ := exists_course arrives
      obtain ⟨otherPlaced, otherOpens⟩ := course_iff_placed.mp other
      exact (least others otherPositions otherPlaced ⟨otherOpens, otherCounts⟩).1
    · intro others otherPositions other same
      obtain ⟨otherPlaced, otherOpens⟩ := course_iff_placed.mp other
      exact (least others otherPositions otherPlaced ⟨otherOpens, same ▸ counts⟩).2 same

/-- A search gives the units of the first of the shortest walks that it may take. -/
theorem routeTo?_eq_some_iff_placed {target : N} {route : List N} :
    routeTo? (graph.routeRecords gate source) target = some route ↔
      ∃ edges positions, Walk.Placed graph source edges positions target ∧ gate.Begins edges ∧
        route = Walk.units source edges ∧
        ∀ others otherPositions, Walk.Placed graph source others otherPositions target →
          gate.Begins others → edges.length ≤ others.length ∧
            (others.length = edges.length → positions ≤ otherPositions) := by
  rw [(charted_routeRecords graph gate source).routeTo?_eq_some_iff]
  refine exists_congr fun edges => exists_congr fun positions => ?_
  rw [foremost_iff_placed]
  tauto

/-- Without a gate every prefix of a route is the route to its last unit. -/
theorem routeTo?_prefix {target unit : N} {front back : List N}
    (found : routeTo? (graph.routeRecords .anyEdge source) target = some (front ++ unit :: back)) :
    routeTo? (graph.routeRecords .anyEdge source) unit = some (front ++ [unit]) := by
  have charted := charted_routeRecords graph .anyEdge source
  obtain ⟨edges, positions, foremost, parts⟩ := charted.routeTo?_eq_some_iff.mp found
  obtain ⟨before, beforePositions, earlier, same⟩ := foremost.prefix_of_units parts.symm
  exact charted.routeTo?_eq_some_iff.mpr ⟨before, beforePositions, earlier, same.symm⟩

end Route

namespace BuildGraph

variable [LawfulBEq N]

open Walk (Placed)

/-- Routes break ties by the order of edges.  A route has the units of a shortest walk
which, by the positions of its edges among the edges of their units, is the
lexicographically least of all shortest walks; behind the gate the same holds for the
walks whose first edge is a compile edge.  So every prefix of a route without a gate is
the route to its own last unit. -/
theorem routes_break_ties (graph : BuildGraph N) (source target : N) :
    (∀ route, graph.shortestRoute? source target = some route ↔
      ∃ edges positions, Placed graph source edges positions target ∧
        route = Walk.units source edges ∧
        ∀ others otherPositions, Placed graph source others otherPositions target →
          edges.length ≤ others.length ∧
            (others.length = edges.length → positions ≤ otherPositions)) ∧
    (∀ route, graph.gatedRoute? source target = some route ↔
      ∃ edges positions, Placed graph source edges positions target ∧
        edges.head?.map (·.kind) = some .compile ∧ route = Walk.units source edges ∧
        ∀ others otherPositions, Placed graph source others otherPositions target →
          others.head?.map (·.kind) = some .compile → edges.length ≤ others.length ∧
            (others.length = edges.length → positions ≤ otherPositions)) ∧
    ∀ front unit back, graph.shortestRoute? source target = some (front ++ unit :: back) →
      graph.shortestRoute? source unit = some (front ++ [unit]) := by
  refine ⟨fun route => ?_, fun route => Route.routeTo?_eq_some_iff_placed,
    fun front unit back => Route.routeTo?_prefix⟩
  refine Route.routeTo?_eq_some_iff_placed.trans ?_
  simp only [Route.Gate.Begins, true_and, true_imp_iff]

/-- A graph with two ways from `0` to `3`, of which the one by `1` comes first, though
not behind the gate. -/
def forked : BuildGraph Nat :=
  ofList [(0, [⟨1, .runtime⟩, ⟨2, .compile⟩, ⟨1, .compile⟩]), (1, [⟨3, .runtime⟩]),
    (2, [⟨3, .runtime⟩])]

/-- From `0` the route to `3` passes `1`, the target of the first edge, and behind the
gate `2`, the target of the first compile edge. -/
theorem routes_break_ties_forked :
    forked.shortestRoute? 0 3 = some [0, 1, 3] ∧ forked.gatedRoute? 0 3 = some [0, 2, 3] ∧
      forked.shortestRoute? 0 1 = some [0, 1] := by
  have edges : forked.edges 0 = [⟨1, .runtime⟩, ⟨2, .compile⟩, ⟨1, .compile⟩] ∧
      forked.edges 1 = [⟨3, .runtime⟩] ∧ forked.edges 2 = [⟨3, .runtime⟩] := by
    simp [forked, ofList]
  have ways : ∀ others otherPositions, Placed forked 0 others otherPositions 3 →
      ∃ first second more position morePositions, others = first :: second :: more ∧
        otherPositions = position :: 0 :: morePositions ∧
        (forked.edges 0)[position]? = some first := by
    intro others otherPositions placed
    cases placed with
    | @hop _ _ first _ position _ given onward =>
        obtain ⟨middle, kind⟩ := first
        have member := List.mem_of_getElem? given
        have between : middle = 1 ∨ middle = 2 := by
          simp only [edges, List.mem_cons, Edge.mk.injEq, List.not_mem_nil] at member
          tauto
        have single : forked.edges middle = [⟨3, .runtime⟩] := by
          rcases between with rfl | rfl <;> simp [edges]
        cases onward with
        | stay => exact absurd between (by decide)
        | @hop _ _ second more next morePositions isGiven _ =>
            have isFirst : next = 0 := by
              obtain ⟨bound, _⟩ := List.getElem?_eq_some_iff.mp isGiven
              rw [single, List.length_singleton] at bound
              omega
            exact ⟨_, second, more, position, morePositions, rfl, by rw [isFirst], given⟩
  have first : Placed forked 0 [⟨1, .runtime⟩, ⟨3, .runtime⟩] [0, 0] 3 :=
    .hop (by simp [edges]) (.hop (by simp [edges]) (.stay 3))
  have compiled : Placed forked 0 [⟨2, .compile⟩, ⟨3, .runtime⟩] [1, 0] 3 :=
    .hop (by simp [edges]) (.hop (by simp [edges]) (.stay 3))
  obtain ⟨plain, gated, prefixes⟩ := routes_break_ties forked 0 3
  have route : forked.shortestRoute? 0 3 = some [0, 1, 3] := by
    refine (plain _).mpr ⟨_, _, first, rfl, fun others otherPositions placed => ?_⟩
    obtain ⟨_, _, _, position, _, rfl, rfl, _⟩ := ways others otherPositions placed
    refine ⟨by simp, fun _ => not_lt.mp ?_⟩
    simp [List.cons_lt_cons_iff]
  refine ⟨route, ?_, prefixes [0] 1 [3] route⟩
  refine (gated _).mpr ⟨_, _, compiled, rfl, rfl, fun others otherPositions placed opens => ?_⟩
  obtain ⟨edge, _, _, position, _, rfl, rfl, given⟩ := ways others otherPositions placed
  have later : position ≠ 0 := by
    rintro rfl
    rw [edges.1] at given
    cases given
    cases opens
  refine ⟨by simp, fun _ => not_lt.mp ?_⟩
  simp [List.cons_lt_cons_iff, later]

end BuildGraph

end BuildImpact
