/-
Module: BuildImpact.Proofs.Route.Records
Layer: Proofs
Purpose: The records of a search at any time.  A unit can have its turn again on the layer
  after its own, but never on an earlier one, so what is recorded stays.  The records form
  a tree in layers: each unit hangs by an edge on one that is recorded one hop nearer, and
  behind a gate the units of the first layer hang on the source by compile edges.
Imports: BuildImpact.Proofs.Layers.Transcript, BuildImpact.Proofs.Route.Termination
Trusted boundary: none
Main exports: Route.Overwrites, Route.Hangs, Route.Frontier.hangs, Route.Frontier.not_overwrites,
  Route.exists_frontier_of_passes, Route.getElem?_transcript_of_le, Route.records_form_tree
Open obligations: none
-/
import BuildImpact.Proofs.Layers.Transcript
import BuildImpact.Proofs.Route.Termination

namespace BuildImpact

variable {N : Type} [BEq N] [Hashable N] {graph : BuildGraph N}

open Layers (Arrival Passes transcript)

namespace Route

variable {gate : Gate} {source unit : N} {records : Records N} {arrival : Arrival N} {depth : Nat}

/-- Whether a visit would replace the record of its unit by a less deep one. -/
def Overwrites (records : Records N) (arrival : Arrival N) : Prop :=
  ∃ known, records[arrival.unit]? = some known ∧ arrival.depth < known.depth

/-- Where a recorded unit hangs in the tree of the records. -/
inductive Hangs (graph : BuildGraph N) (gate : Gate) (source : N) (records : Records N) :
    N → Record N → Prop where
  /-- Without a gate the source is the root of the tree. -/
  | root (ungated : gate = .anyEdge) : Hangs graph gate source records source ⟨0, none⟩
  /-- Behind the gate a compile edge of the source leads to each unit of the first layer. -/
  | first {edge : Edge N} (gated : gate = .compileEdge) (given : edge ∈ graph.edges source)
      (compile : edge.kind = .compile) :
      Hangs graph gate source records edge.target ⟨1, some source⟩
  /-- Everywhere else the parent is recorded one hop nearer, and behind the gate it is not
  the source as it was at the start. -/
  | below {parent : N} {known : Record N} {edge : Edge N}
      (above : records[parent]? = some known) (given : edge ∈ graph.edges parent)
      (gated : gate = .compileEdge → 1 ≤ known.depth) :
      Hangs graph gate source records edge.target ⟨known.depth + 1, some parent⟩

variable [LawfulBEq N] {current waiting next : List (Arrival N)}

namespace Frontier

/-- Each record is that of a unit in the tree. -/
theorem hangs (frontier : Frontier graph gate source depth current next records)
    {record : Record N} (found : records[unit]? = some record) :
    Hangs graph gate source records unit record := by
  obtain ⟨nearest, bound⟩ := frontier.nearest unit record found
  have traced := frontier.traced unit record found
  obtain ⟨recordDepth, parent⟩ := record
  cases parent with
  | none =>
      obtain ⟨rfl, rfl⟩ := traced
      cases gate with
      | anyEdge => exact .root rfl
      | compileEdge => exact absurd (nearest.counts rfl) (Nat.lt_irrefl 0)
  | some parent =>
      obtain ⟨before, rfl, ⟨edge, given, admitted, rfl⟩, onLayer⟩ := traced
      rcases onLayer with ⟨rfl, rfl⟩ | ⟨known, above, rfl⟩
      · cases gate with
        | anyEdge =>
            -- The unit is behind the first layer, and all of that one is recorded.
            have start : Nearest graph .anyEdge parent 0 parent :=
              ⟨nofun, .start, fun _ _ _ => Nat.zero_le _⟩
            have member : parent ∈ records := frontier.nearer parent 0 start bound
            have above := Std.HashMap.getElem?_eq_some_getElem member
            have atRoot := (frontier.nearest parent _ above).1.unique start
            rw [← atRoot]
            exact .below above given nofun
        | compileEdge =>
            exact .first rfl given (eq_of_beq (admitted.resolve_left (Nat.lt_irrefl 0)))
      · exact .below above given (frontier.nearest parent known above).1.counts

omit [LawfulBEq N] in
/-- A visit comes no earlier than any record. -/
theorem not_overwrites
    (frontier : Frontier graph gate source depth (arrival :: waiting) next records) :
    ¬ Overwrites records arrival := by
  rintro ⟨known, found, less⟩
  have atDepth := (frontier.arriving arrival List.mem_cons_self).1.depth_eq
  have bound := (frontier.nearest arrival.unit known found).2
  omega

/-- A visit leaves every record as it is. -/
theorem getElem?_note
    (frontier : Frontier graph gate source depth (arrival :: waiting) next records)
    {record : Record N} (found : records[unit]? = some record) :
    (note gate records arrival)[unit]? = some record := by
  rcases frontier.note_cases with ⟨same, _⟩ | ⟨same, new, _⟩
  · rwa [same]
  · have apart : (arrival.unit == unit) = false := by
      rw [beq_eq_false_iff_ne]
      rintro rfl
      exact new (Std.HashMap.getElem?_eq_some_iff.mp found).fst
    rw [same, Std.HashMap.getElem?_insert, apart]
    exact found

end Frontier

/-! ### Every state of the walk -/

/-- Between two visits the frontier holds. -/
theorem exists_frontier (graph : BuildGraph N) (gate : Gate) (source : N) (visits : Nat) :
    ∃ depth, Frontier graph gate source depth
      (transcript graph (recorder gate) source ∅ visits).current
      (transcript graph (recorder gate) source ∅ visits).next
      (transcript graph (recorder gate) source ∅ visits).memory.1 := by
  have same : (transcript graph (recorder gate) source ∅ visits).part Prod.fst =
      Layers.steps graph (recorder gate) visits (.start source ∅) :=
    Layers.part_transcript _ visits
  obtain ⟨depth, frontier⟩ : ∃ depth, Frontier graph gate source depth
      (Layers.steps graph (recorder gate) visits (.start source ∅)).current
      (Layers.steps graph (recorder gate) visits (.start source ∅)).next
      (Layers.steps graph (recorder gate) visits (.start source ∅)).memory :=
    kept_frontier.steps visits (frontier_start graph gate source)
  rw [← same] at frontier
  exact ⟨depth, frontier⟩

section Visit

variable {memory : Records N × List (Layers.Call N)}

omit [LawfulBEq N] in
/-- In the middle of a visit the records are those after its note. -/
theorem records_midway (looked : Nat) :
    (Layers.midway graph (Layers.transcribed (recorder gate)) looked
      ⟨arrival :: waiting, next, memory⟩).memory.1 = note gate memory.1 arrival := by
  have led := (Layers.shows_transcribed (recorder gate)).follow arrival
    ((graph.edges arrival.unit).take looked) next
    ((Layers.transcribed (recorder gate)).arrive memory arrival)
  rw [follow_recorder] at led
  exact (Prod.mk.inj led).2

omit [LawfulBEq N] in
/-- So they are after the visit. -/
theorem records_step :
    (Layers.step graph (Layers.transcribed (recorder gate))
      ⟨arrival :: waiting, next, memory⟩).memory.1 = note gate memory.1 arrival := by
  have led : ((Layers.visit graph (Layers.transcribed (recorder gate)) arrival next memory).1,
      (Layers.visit graph (Layers.transcribed (recorder gate)) arrival next memory).2.1) =
      Layers.visit graph (recorder gate) arrival next memory.1 :=
    (Layers.shows_transcribed (recorder gate)).visit arrival next memory
  rw [visit_recorder] at led
  cases waiting <;> exact (Prod.mk.inj led).2

end Visit

/-- The records of every state that the walk passes through have a frontier. -/
theorem exists_frontier_of_passes {state : Layers.State N (Records N × List (Layers.Call N))}
    (passes : Passes graph (recorder gate) source ∅ state) :
    ∃ depth current next, Frontier graph gate source depth current next state.memory.1 := by
  cases passes with
  | between visits =>
      obtain ⟨depth, frontier⟩ := exists_frontier graph gate source visits
      exact ⟨depth, _, _, frontier⟩
  | midway visits looked =>
      obtain ⟨depth, frontier⟩ := exists_frontier graph gate source visits
      generalize transcript graph (recorder gate) source ∅ visits = state at frontier
      obtain ⟨current, next, memory⟩ := state
      cases current with
      | nil => exact ⟨depth, _, _, frontier⟩
      | cons arrival waiting =>
          rw [records_midway]
          exact ⟨depth, _, _, frontier.noted⟩

/-- What is recorded stays as it is. -/
theorem getElem?_transcript_of_le {fewer visits : Nat} (before : fewer ≤ visits)
    {record : Record N}
    (found : (transcript graph (recorder gate) source ∅ fewer).memory.1[unit]? = some record) :
    (transcript graph (recorder gate) source ∅ visits).memory.1[unit]? = some record := by
  induction visits, before using Nat.le_induction with
  | base => exact found
  | succ visits _ inductionHypothesis =>
      obtain ⟨depth, frontier⟩ := exists_frontier graph gate source visits
      rw [Layers.transcript_succ]
      generalize transcript graph (recorder gate) source ∅ visits = state at *
      obtain ⟨current, next, memory⟩ := state
      cases current with
      | nil => exact inductionHypothesis
      | cons arrival waiting =>
          rw [records_step]
          exact frontier.getElem?_note inductionHypothesis

/-- The records of a search are written once and form a tree in layers, with a gate and
without one.  No visit would replace a record by a less deep one, and what is recorded stays
as it is.  In every state that the walk passes through, each recorded unit hangs by an edge
on a parent that is recorded one hop nearer, except for the source at depth zero of a search
without a gate, and for the units of the first layer behind a gate, to which compile edges
of the source lead; behind a gate the source has no record or one at a greater depth. -/
theorem records_form_tree (graph : BuildGraph N) (gate : Gate) (source : N) :
    (∀ visits arrival,
      (transcript graph (recorder gate) source ∅ visits).current.head? = some arrival →
        ¬ Overwrites (transcript graph (recorder gate) source ∅ visits).memory.1 arrival) ∧
    (∀ fewer visits, fewer ≤ visits → ∀ (unit : N) (record : Record N),
      (transcript graph (recorder gate) source ∅ fewer).memory.1[unit]? = some record →
        (transcript graph (recorder gate) source ∅ visits).memory.1[unit]? = some record) ∧
    ∀ state, Passes graph (recorder gate) source ∅ state →
      (∀ (unit : N) (record : Record N), state.memory.1[unit]? = some record →
        Hangs graph gate source state.memory.1 unit record) ∧
      ∀ record : Record N, gate = .compileEdge → state.memory.1[source]? = some record →
        1 ≤ record.depth := by
  refine ⟨fun visits arrival turn => ?_, fun _ _ before _ _ found =>
    getElem?_transcript_of_le before found, fun state passes => ?_⟩
  · obtain ⟨depth, frontier⟩ := exists_frontier graph gate source visits
    obtain ⟨waiting, current⟩ := List.head?_eq_some_iff.mp turn
    rw [current] at frontier
    exact frontier.not_overwrites
  · obtain ⟨depth, _, _, frontier⟩ := exists_frontier_of_passes passes
    refine ⟨fun unit record found => frontier.hangs found, fun record gated found => ?_⟩
    exact (frontier.nearest source record found).1.counts gated

theorem edges_turnpike :
    turnpike.edges 0 = [⟨1, .compile⟩, ⟨3, .runtime⟩, ⟨0, .runtime⟩] ∧
      turnpike.edges 1 = [⟨2, .runtime⟩, ⟨2, .reexport⟩] ∧
      turnpike.edges 2 = [⟨1, .compile⟩, ⟨0, .runtime⟩] := by
  simp [turnpike, BuildGraph.edges_ofList]

/-- Behind the gate `2` has its turn a second time in `turnpike` and its record stays, and the
source is recorded when the chain has led back to it, three hops away below `2`. -/
theorem records_form_tree_turnpike :
    let after := fun visits => transcript turnpike (recorder .compileEdge) 0 ∅ visits
    (after 3).current.head? = some ⟨2, some 1, 2⟩ ∧
      ¬ Overwrites (after 3).memory.1 ⟨2, some 1, 2⟩ ∧
      (after 5).memory.1[2]? = some ⟨2, some 1⟩ ∧
      Hangs turnpike .compileEdge 0 (after 5).memory.1 0 ⟨3, some 2⟩ ∧
      ∃ record, (after 5).memory.1[0]? = some record ∧ 1 ≤ record.depth := by
  obtain ⟨first, second, third⟩ := edges_turnpike
  have refused : (EdgeKind.runtime == EdgeKind.compile) = false := rfl
  have ⟨turn, early, back⟩ :
      (transcript turnpike (recorder .compileEdge) 0 ∅ 3).current.head? = some ⟨2, some 1, 2⟩ ∧
      (transcript turnpike (recorder .compileEdge) 0 ∅ 3).memory.1[2]? = some ⟨2, some 1⟩ ∧
      (transcript turnpike (recorder .compileEdge) 0 ∅ 5).memory.1[0]? = some ⟨3, some 2⟩ := by
    simp [transcript, Layers.steps, Layers.step, Layers.follow, Layers.State.start,
      Layers.transcribed, recorder, note, Gate.admits, first, second, third, refused]
  obtain ⟨never, stays, always⟩ := records_form_tree turnpike .compileEdge 0
  obtain ⟨tree, deep⟩ := always _ (.between 5)
  exact ⟨turn, never 3 _ turn, stays 3 5 (by decide) 2 _ early, tree 0 _ back,
    _, back, deep _ rfl back⟩

end Route

end BuildImpact
