/-
Module: BuildImpact.Proofs.Route.Search
Layer: Proofs
Purpose: What a search for routes records.  A unit can stand in a layer several times,
  also in the layer after its own, since it is marked only when it is visited.  What
  stays true all the same: everything nearer than the layer at hand is recorded, what is
  nearest on it is recorded or still to be visited, and whatever has been visited has
  led on to the layer to come.  So every record is made once, at the least number of
  hops, with a parent one hop nearer.
Imports: BuildImpact.Proofs.Layers.Invariant, BuildImpact.Proofs.Route.Arrival
Trusted boundary: none
Main exports: Route.Traced, Route.followed_iff, Route.Frontier, Route.kept_frontier,
  Route.records_nearest, Route.records_traced, Route.records_complete
Open obligations: none
-/
import BuildImpact.Proofs.Layers.Invariant
import BuildImpact.Proofs.Route.Arrival

namespace BuildImpact

variable {N : Type} [BEq N] [Hashable N] {graph : BuildGraph N}

open Layers (Arrival)

namespace Route

variable {gate : Gate} {source : N}

/-! ### What a record says -/

/-- Whether a record of `unit` is right about its parent.  The unit without a
parent is the source of a search without a gate; any other has an edge from its
parent, which is the source or is recorded one hop nearer. -/
def Traced (graph : BuildGraph N) (gate : Gate) (source : N) (records : Records N) (unit : N)
    (record : Record N) : Prop :=
  match record.parent with
  | none => unit = source ∧ record.depth = 0
  | some parent => ∃ depth, record.depth = depth + 1 ∧
      (∃ edge ∈ graph.edges parent,
        (0 < depth ∨ gate.admits edge.kind = true) ∧ edge.target = unit) ∧
      ((depth = 0 ∧ parent = source) ∨ ∃ known, records[parent]? = some known ∧ known.depth = depth)

/-- Whether an arrival on a layer is right about where it comes from. -/
inductive Justified (graph : BuildGraph N) (gate : Gate) (source : N) : Nat → Arrival N → Prop where
  | start : Justified graph gate source 0 ⟨source, none, 0⟩
  | hop {depth : Nat} {unit : N} {edge : Edge N}
      (earlier : Arrives graph gate source depth unit) (given : edge ∈ graph.edges unit)
      (admitted : 0 < depth ∨ gate.admits edge.kind = true) :
      Justified graph gate source (depth + 1) ⟨edge.target, some unit, depth + 1⟩

/-- What holds while the layer at `depth` is visited: `current` is the rest of
it and `next` the layer to come. -/
structure Frontier (graph : BuildGraph N) (gate : Gate) (source : N) (depth : Nat)
    (current next : List (Arrival N)) (records : Records N) : Prop where
  /-- Arrivals come from where they say, and at most one layer late. -/
  arriving : ∀ arrival ∈ current, Justified graph gate source depth arrival ∧
    ∀ least, Nearest graph gate source least arrival.unit → depth ≤ least + 1
  leaving : ∀ arrival ∈ next, Justified graph gate source (depth + 1) arrival ∧
    ∀ least, Nearest graph gate source least arrival.unit → depth ≤ least
  /-- Records hold the least number of hops, and parents one hop nearer. -/
  nearest : ∀ unit record, records[unit]? = some record →
    Nearest graph gate source record.depth unit ∧ record.depth ≤ depth
  traced : ∀ unit record, records[unit]? = some record →
    Traced graph gate source records unit record
  /-- Every nearer unit is recorded, and every unit of this layer on its way to be. -/
  nearer : ∀ unit least, Nearest graph gate source least unit → least < depth → unit ∈ records
  level : ∀ unit, Nearest graph gate source depth unit →
    unit ∈ records ∨ ∃ arrival ∈ current, arrival.unit = unit
  /-- Every unit of this layer waits for a visit or has led on. -/
  scanned : ∀ unit, OnLayer graph gate source depth unit →
    (∃ arrival ∈ current, arrival.unit = unit) ∨
      ∀ edge ∈ graph.edges unit, 0 < depth ∨ gate.admits edge.kind = true →
        edge.target ∈ records ∨ ∃ arrival ∈ next, arrival.unit = edge.target

variable {depth : Nat} {arrival : Arrival N} {records : Records N}

theorem Justified.depth_eq (justified : Justified graph gate source depth arrival) :
    arrival.depth = depth := by
  cases justified <;> rfl

theorem Justified.arrives (justified : Justified graph gate source depth arrival) :
    Arrives graph gate source depth arrival.unit := by
  cases justified with
  | start => exact .start
  | hop earlier given admitted => exact .hop earlier given admitted

/-! ### One visit -/

/-- Whether the edges of a visited unit are followed: to units without a record,
and from the start only where the gate admits it. -/
def followed (gate : Gate) (records : Records N) (arrival : Arrival N) (edge : Edge N) : Bool :=
  !records.contains edge.target && (decide (0 < arrival.depth) || gate.admits edge.kind)

theorem followed_iff [LawfulBEq N] {edge : Edge N} :
    followed gate records arrival edge = true ↔
      edge.target ∉ records ∧ (0 < arrival.depth ∨ gate.admits edge.kind = true) := by
  rw [followed, Bool.and_eq_true, Bool.not_eq_true', Std.HashMap.contains_eq_false_iff_not_mem,
    Bool.or_eq_true, decide_eq_true_eq]

/-- Looking at edges leaves the records as they are, and puts the targets of those that are
followed behind the layer to come. -/
theorem follow_recorder (edges : List (Edge N)) (next : List (Arrival N)) (records : Records N) :
    Layers.follow (recorder gate) arrival edges next records =
      (((edges.filter (followed gate records arrival)).map
        fun edge => ⟨edge.target, some arrival.unit, arrival.depth + 1⟩).reverse ++ next,
      records) := by
  induction edges generalizing next with
  | nil => rfl
  | cons edge edges inductionHypothesis =>
      have decision : (recorder gate).takes records arrival edge =
          (followed gate records arrival edge, records) := rfl
      rw [Layers.follow, decision]
      cases chosen : followed gate records arrival edge <;>
        simp [chosen, inductionHypothesis]

/-- A visit leaves the records as they are after the note, and puts the targets
of the followed edges behind the layer to come. -/
theorem visit_recorder (next : List (Arrival N)) (records : Records N) :
    Layers.visit graph (recorder gate) arrival next records =
      ((((graph.edges arrival.unit).filter (followed gate (note gate records arrival) arrival)).map
          fun edge => ⟨edge.target, some arrival.unit, arrival.depth + 1⟩).reverse ++ next,
        note gate records arrival) :=
  follow_recorder _ _ _

variable [LawfulBEq N]

/-- A note makes a record at most of the unit that arrives, which had none. -/
theorem note_eq (gate : Gate) (shallow : ∀ record, records[arrival.unit]? = some record →
      record.depth ≤ arrival.depth) :
    note gate records arrival =
      if arrival.unit ∈ records ∨ (arrival.depth = 0 ∧ gate = .compileEdge) then records
      else records.insert arrival.unit ⟨arrival.depth, arrival.via⟩ := by
  rw [note]
  split
  · rename_i known found
    have member : arrival.unit ∈ records := (Std.HashMap.getElem?_eq_some_iff.mp found).fst
    have notLess := Nat.not_lt.mpr (shallow known found)
    simp [member, notLess]
  · rename_i missing
    have new : arrival.unit ∉ records := by
      rw [Std.HashMap.mem_iff_isSome_getElem?, missing]
      simp
    simp [new]

/-- A further record spoils no parent. -/
theorem Traced.insert {unit other : N} {record further : Record N} (new : other ∉ records)
    (traced : Traced graph gate source records unit record) :
    Traced graph gate source (records.insert other further) unit record := by
  obtain ⟨recordDepth, parent⟩ := record
  cases parent with
  | none => exact traced
  | some parent =>
      obtain ⟨depth, same, given, onLayer⟩ := traced
      refine ⟨depth, same, given, onLayer.imp_right ?_⟩
      rintro ⟨known, found, knownDepth⟩
      refine ⟨known, ?_, knownDepth⟩
      rw [Std.HashMap.getElem?_insert]
      split
      · rename_i isParent
        rw [← eq_of_beq isParent] at found
        exact absurd (Std.HashMap.getElem?_eq_some_iff.mp found).fst new
      · exact found

variable {waiting next : List (Arrival N)}

namespace Frontier

omit [LawfulBEq N] in
/-- A unit without a record whose turn it is has its least number of hops, unless
it is the source of a search with a gate. -/
theorem nearest_of_new
    (frontier : Frontier graph gate source depth (arrival :: waiting) next records)
    (new : arrival.unit ∉ records) (counts : gate.Counts depth) :
    Nearest graph gate source depth arrival.unit := by
  have arrives := (frontier.arriving arrival List.mem_cons_self).1.arrives
  obtain ⟨least, bound, nearest⟩ := exists_nearest counts arrives
  have notNearer : ¬ least < depth := fun nearer => new (frontier.nearer _ least nearest nearer)
  rwa [show depth = least by omega]

/-- Where such a unit comes from is a parent one hop nearer. -/
theorem traced_of_new
    (frontier : Frontier graph gate source depth (arrival :: waiting) next records)
    (nearest : Nearest graph gate source depth arrival.unit) :
    Traced graph gate source records arrival.unit ⟨depth, arrival.via⟩ := by
  cases (frontier.arriving arrival List.mem_cons_self).1 with
  | start => exact ⟨rfl, rfl⟩
  | @hop before unit edge earlier given admitted =>
      refine ⟨before, rfl, ⟨edge, given, admitted, rfl⟩, ?_⟩
      apply (earlier.onLayer given nearest).imp_right
      intro nearer
      have member := frontier.nearer unit before nearer before.lt_succ_self
      have found := Std.HashMap.getElem?_eq_some_getElem member
      exact ⟨_, found, (frontier.nearest unit _ found).1.unique nearer⟩

/-- A note changes nothing, or records the unit that arrives at its least number
of hops.  No record is ever replaced. -/
theorem note_cases (frontier : Frontier graph gate source depth (arrival :: waiting) next records) :
    (note gate records arrival = records ∧
      (arrival.unit ∈ records ∨ ¬ gate.Counts depth)) ∨
    (note gate records arrival = records.insert arrival.unit ⟨depth, arrival.via⟩ ∧
      arrival.unit ∉ records ∧ Nearest graph gate source depth arrival.unit) := by
  have atDepth := (frontier.arriving arrival List.mem_cons_self).1.depth_eq
  have shallow : ∀ record, records[arrival.unit]? = some record → record.depth ≤ arrival.depth :=
    fun record found => atDepth ▸ (frontier.nearest _ record found).2
  have noted := note_eq (N := N) gate shallow
  rw [atDepth] at noted
  have uncounted : depth = 0 ∧ gate = .compileEdge ↔ ¬ gate.Counts depth := by
    simp only [Gate.Counts, Classical.not_imp, not_lt, Nat.le_zero]
    exact and_comm
  by_cases old : arrival.unit ∈ records ∨ (depth = 0 ∧ gate = .compileEdge)
  · exact .inl ⟨noted.trans (if_pos old), old.imp_right uncounted.mp⟩
  · obtain ⟨new, counted⟩ := not_or.mp old
    have counts : gate.Counts depth := not_not.mp (mt uncounted.mpr counted)
    exact .inr ⟨noted.trans (if_neg old), new, frontier.nearest_of_new new counts⟩

/-- Noting an arrival keeps the frontier. -/
theorem noted (frontier : Frontier graph gate source depth (arrival :: waiting) next records) :
    Frontier graph gate source depth (arrival :: waiting) next (note gate records arrival) := by
  rcases frontier.note_cases with ⟨same, _⟩ | ⟨same, new, nearest⟩
  · rwa [same]
  · have kept : ∀ unit ∈ records, unit ∈ records.insert arrival.unit ⟨depth, arrival.via⟩ :=
      fun unit member => Std.HashMap.mem_insert.mpr (.inr member)
    have recorded : ∀ unit record,
        (records.insert arrival.unit ⟨depth, arrival.via⟩)[unit]? = some record →
          (unit = arrival.unit ∧ record = ⟨depth, arrival.via⟩) ∨ records[unit]? = some record := by
      intro unit record found
      rw [Std.HashMap.getElem?_insert] at found
      split at found
      · rename_i isUnit
        exact .inl ⟨(eq_of_beq isUnit).symm, (Option.some.inj found).symm⟩
      · exact .inr found
    rw [same]
    refine ⟨frontier.arriving, frontier.leaving, ?_, ?_, ?_, ?_, ?_⟩
    · intro unit record found
      rcases recorded unit record found with ⟨rfl, rfl⟩ | old
      · exact ⟨nearest, le_rfl⟩
      · exact frontier.nearest unit record old
    · intro unit record found
      rcases recorded unit record found with ⟨rfl, rfl⟩ | old
      · exact (frontier.traced_of_new nearest).insert new
      · exact (frontier.traced unit record old).insert new
    · exact fun unit least near less => kept unit (frontier.nearer unit least near less)
    · exact fun unit near => (frontier.level unit near).imp_left (kept unit)
    · intro unit onLayer
      apply (frontier.scanned unit onLayer).imp_right
      exact fun led edge given admitted => (led edge given admitted).imp_left (kept edge.target)

/-- The edges of a unit lead on to the next layer, once the unit is recorded
where it has to be. -/
theorem led (frontier : Frontier graph gate source depth (arrival :: waiting) next records)
    (recorded : Nearest graph gate source depth arrival.unit → arrival.unit ∈ records) :
    Frontier graph gate source depth waiting
      ((((graph.edges arrival.unit).filter (followed gate records arrival)).map
        fun edge => ⟨edge.target, some arrival.unit, arrival.depth + 1⟩).reverse ++ next)
      records := by
  have justified := (frontier.arriving arrival List.mem_cons_self).1
  rw [justified.depth_eq]
  refine ⟨fun other member => frontier.arriving other (List.mem_cons_of_mem _ member), ?_,
    frontier.nearest, frontier.traced, frontier.nearer, ?_, ?_⟩
  · intro other member
    rcases List.mem_append.mp member with fresh | old
    · obtain ⟨edge, chosen, rfl⟩ := List.mem_map.mp (List.mem_reverse.mp fresh)
      obtain ⟨given, follows⟩ := List.mem_filter.mp chosen
      obtain ⟨new, admitted⟩ := followed_iff.mp follows
      rw [justified.depth_eq] at admitted
      refine ⟨.hop justified.arrives given admitted, fun least nearest => ?_⟩
      by_contra nearer
      exact new (frontier.nearer edge.target least nearest (Nat.not_le.mp nearer))
    · exact frontier.leaving other old
  · intro unit nearest
    rcases frontier.level unit nearest with member | ⟨other, member, rfl⟩
    · exact .inl member
    · rcases List.mem_cons.mp member with rfl | member
      · exact .inl (recorded nearest)
      · exact .inr ⟨other, member, rfl⟩
  · intro unit onLayer
    rcases frontier.scanned unit onLayer with ⟨other, member, rfl⟩ | led
    · rcases List.mem_cons.mp member with rfl | member
      · refine .inr fun edge given admitted => or_iff_not_imp_left.mpr fun new => ?_
        have follows : followed gate records other edge = true :=
          followed_iff.mpr ⟨new, justified.depth_eq ▸ admitted⟩
        exact ⟨_, List.mem_append_left _ (List.mem_reverse.mpr
          (List.mem_map_of_mem (List.mem_filter.mpr ⟨given, follows⟩))), rfl⟩
      · exact .inl ⟨other, member, rfl⟩
    · exact .inr fun edge given admitted => (led edge given admitted).imp_right
        fun ⟨other, member, same⟩ => ⟨other, List.mem_append_right _ member, same⟩

/-- A unit that is nearest on its layer has a record as soon as its arrival is noted. -/
theorem recorded (frontier : Frontier graph gate source depth (arrival :: waiting) next records)
    (nearest : Nearest graph gate source depth arrival.unit) :
    arrival.unit ∈ note gate records arrival := by
  rcases frontier.note_cases with ⟨same, old⟩ | ⟨same, _, _⟩
  · rw [same]
    exact old.resolve_right (not_not.mpr nearest.counts)
  · rw [same]
    exact Std.HashMap.mem_insert_self

theorem visit (frontier : Frontier graph gate source depth (arrival :: waiting) next records) :
    Frontier graph gate source depth waiting
      (Layers.visit graph (recorder gate) arrival next records).1
      (Layers.visit graph (recorder gate) arrival next records).2 := by
  rw [visit_recorder]
  exact frontier.noted.led frontier.recorded

/-- The change to the next layer keeps the frontier. -/
theorem change (frontier : Frontier graph gate source depth [] next records) :
    Frontier graph gate source (depth + 1) next.reverse [] records := by
  have level : ∀ unit, Nearest graph gate source depth unit → unit ∈ records := by
    intro unit nearest
    rcases frontier.level unit nearest with member | ⟨_, member, _⟩
    · exact member
    · cases member
  have onward : ∀ unit, Nearest graph gate source (depth + 1) unit →
      unit ∈ records ∨ ∃ arrival ∈ next.reverse, arrival.unit = unit := by
    intro unit nearest
    obtain ⟨earlier, onLayer, edge, given, admitted, rfl⟩ := nearest.predecessor
    rcases frontier.scanned earlier onLayer with ⟨_, member, _⟩ | led
    · cases member
    · exact (led edge given admitted).imp_right
        fun ⟨other, member, same⟩ => ⟨other, List.mem_reverse.mpr member, same⟩
  refine ⟨?_, fun other member => (List.not_mem_nil member).elim, ?_, frontier.traced, ?_,
    onward, ?_⟩
  · intro other member
    obtain ⟨justified, late⟩ := frontier.leaving other (List.mem_reverse.mp member)
    exact ⟨justified, fun least nearest => Nat.succ_le_succ (late least nearest)⟩
  · intro unit record found
    obtain ⟨nearest, bound⟩ := frontier.nearest unit record found
    exact ⟨nearest, Nat.le_succ_of_le bound⟩
  · intro unit least nearest bound
    rcases Nat.lt_succ_iff_lt_or_eq.mp bound with less | rfl
    · exact frontier.nearer unit least nearest less
    · exact level unit nearest
  · intro unit onLayer
    rcases onLayer with ⟨positive, _⟩ | nearest
    · cases positive
    · rcases onward unit nearest with member | waits
      · have found := Std.HashMap.getElem?_eq_some_getElem member
        obtain ⟨known, bound⟩ := frontier.nearest unit _ found
        have same := known.unique nearest
        omega
      · exact .inl waits

end Frontier

theorem kept_frontier : Layers.Kept graph (recorder gate) (Frontier graph gate source) :=
  ⟨fun frontier => frontier.visit, fun frontier => frontier.change⟩

omit [LawfulBEq N] in
/-- The frontier of a search that has not begun. -/
theorem frontier_start (graph : BuildGraph N) (gate : Gate) (source : N) :
    Frontier graph gate source 0 [⟨source, none, 0⟩] [] (∅ : Records N) := by
  have here : ∃ arrival ∈ [(⟨source, none, 0⟩ : Arrival N)], arrival.unit = source :=
    ⟨_, List.mem_singleton_self _, rfl⟩
  refine ⟨?_, fun other member => (List.not_mem_nil member).elim, ?_, ?_, ?_, ?_, ?_⟩
  · intro arrival member
    cases List.mem_singleton.mp member
    exact ⟨.start, fun least _ => Nat.zero_le _⟩
  · intro unit record found
    simp at found
  · intro unit record found
    simp at found
  · exact fun unit least nearest less => (Nat.not_lt_zero least less).elim
  · intro unit nearest
    cases nearest.arrives.eq_source
    exact .inr here
  · intro unit onLayer
    cases onLayer.arrives.eq_source
    exact .inl here

/-- No layer as deep as the budget has an arrival, which would be later than its
layer lets it be. -/
theorem Frontier.depth_lt_budget
    (frontier : Frontier graph gate source depth (arrival :: waiting) next records) :
    depth < Layers.budget graph := by
  obtain ⟨justified, late⟩ := frontier.arriving arrival List.mem_cons_self
  cases depth with
  | zero => exact Nat.succ_pos _
  | succ depth =>
      obtain ⟨least, _, nearest⟩ :=
        exists_nearest (gate.counts_of_pos depth.succ_pos) justified.arrives
      calc depth + 1 ≤ least + 1 := late least nearest
        _ ≤ graph.edgeCount + 1 := Nat.succ_le_succ nearest.le_edgeCount
        _ < graph.edgeCount + 3 := Nat.lt_add_of_pos_right Nat.two_pos

/-- A search ends with nothing left to visit. -/
theorem exists_frontier_routeRecords (graph : BuildGraph N) (gate : Gate) (source : N) :
    ∃ depth, Frontier graph gate source depth [] [] (graph.routeRecords gate source) :=
  kept_frontier.walk (frontier_start graph gate source) fun frontier => frontier.depth_lt_budget

/-- Every record holds the least number of hops to its unit. -/
theorem records_nearest {unit : N} {record : Record N}
    (found : (graph.routeRecords gate source)[unit]? = some record) :
    Nearest graph gate source record.depth unit := by
  obtain ⟨_, frontier⟩ := exists_frontier_routeRecords graph gate source
  exact (frontier.nearest unit record found).1

/-- Every record is right about its parent. -/
theorem records_traced {unit : N} {record : Record N}
    (found : (graph.routeRecords gate source)[unit]? = some record) :
    Traced graph gate source (graph.routeRecords gate source) unit record := by
  obtain ⟨_, frontier⟩ := exists_frontier_routeRecords graph gate source
  exact frontier.traced unit record found

/-- Every unit that some walk leads to is recorded. -/
theorem records_complete {unit : N} (nearest : Nearest graph gate source depth unit) :
    unit ∈ graph.routeRecords gate source := by
  obtain ⟨_, frontier⟩ := exists_frontier_routeRecords graph gate source
  exact (kept_frontier.beyond frontier (depth + 1)).nearer unit depth nearest (by omega)

end Route

end BuildImpact
