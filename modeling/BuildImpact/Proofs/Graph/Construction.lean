/-
Module: BuildImpact.Proofs.Graph.Construction
Layer: Proofs
Purpose: What a graph holds of what it was given.  However a graph is put together, edge by
  edge or out of a list of sources, it is the graph of the list of all that it was given, and
  it keeps every edge of that list, in order and as often as it was given.
Imports: Mathlib.Data.Set.Card, BuildImpact.Proofs.Graph.Units
Trusted boundary: none
Main exports: BuildGraph.Step, BuildGraph.build, BuildGraph.given, BuildGraph.build_eq_ofList,
  BuildGraph.mem_outgoing_ofList, BuildGraph.edgeCount_ofList, BuildGraph.occurs_ofList_iff,
  BuildGraph.keeps_every_edge
Open obligations: none
-/
import Mathlib.Data.Set.Card
import BuildImpact.Proofs.Graph.Units

namespace BuildImpact.BuildGraph

variable {N : Type} [BEq N] [Hashable N] {graph : BuildGraph N} {unit source : N}

/-! ### Steps of construction -/

/-- A way to come to a graph, from the one at hand or anew. -/
inductive Step (N : Type) where
  /-- Begin with a graph without any source. -/
  | new
  /-- Put an edge behind those that its source has. -/
  | addEdge (source target : N) (kind : EdgeKind)
  /-- Take a list of sources with their edges instead. -/
  | collect (entries : List (N × List (Edge N)))
deriving Repr, Inhabited

namespace Step

/-- The graph after a step. -/
def apply (graph : BuildGraph N) : Step N → BuildGraph N
  | new => empty
  | addEdge source target kind => graph.addEdge source target kind
  | collect entries => ofList entries

/-- What the graph after a step was given, sources with the edges added to them, in order. -/
def record (given : List (N × List (Edge N))) : Step N → List (N × List (Edge N))
  | new => []
  | addEdge source target kind => given ++ [(source, [⟨target, kind⟩])]
  | collect entries => entries

end Step

/-- The graph that a sequence of steps comes to. -/
def build (steps : List (Step N)) : BuildGraph N := steps.foldl Step.apply empty

/-- What that graph was given. -/
def given (steps : List (Step N)) : List (N × List (Edge N)) := steps.foldl Step.record []

/-- A further entry puts its edges behind those of its source. -/
theorem ofList_snoc (entries : List (N × List (Edge N))) (source : N) (added : List (Edge N)) :
    ofList (entries ++ [(source, added)]) = (ofList entries).addEdges source added := by
  rw [ofList, List.foldl_append]
  rfl

/-- Every construction comes to the graph of what it was given. -/
theorem build_eq_ofList (steps : List (Step N)) : build steps = ofList (given steps) := by
  induction steps using List.reverseRecOn with
  | nil => rfl
  | append_singleton steps step inductionHypothesis =>
      rw [build, given, List.foldl_append, List.foldl_append]
      cases step with
      | new => rfl
      | addEdge source target kind =>
          exact (congrArg (addEdge · source target kind) inductionHypothesis).trans
            (ofList_snoc _ _ _).symm
      | collect entries => rfl

/-! ### What a list gives -/

variable [LawfulBEq N]

theorem mem_outgoing_addEdges (added : List (Edge N)) :
    unit ∈ (graph.addEdges source added).outgoing ↔ unit ∈ graph.outgoing ∨ unit = source := by
  rw [addEdges, Std.HashMap.mem_insert, beq_iff_eq, eq_comm, or_comm]

/-- The sources are those of the list, also those without an edge. -/
theorem mem_outgoing_ofList (entries : List (N × List (Edge N))) :
    unit ∈ (ofList entries).outgoing ↔ ∃ edges, (unit, edges) ∈ entries := by
  induction entries using List.reverseRecOn with
  | nil => simp [ofList, empty]
  | append_singleton entries entry inductionHypothesis =>
      obtain ⟨source, added⟩ := entry
      rw [ofList_snoc, mem_outgoing_addEdges, inductionHypothesis]
      simp only [List.mem_append, List.mem_singleton, Prod.mk.injEq, exists_or, exists_and_left,
        exists_eq, and_true]

/-- A unit without an entry has no edges. -/
theorem edges_eq_nil (absent : unit ∉ graph.outgoing) : graph.edges unit = [] :=
  Std.HashMap.getD_eq_fallback absent

/-- As many edges are added as are given. -/
theorem edgeCount_addEdges (source : N) (added : List (Edge N)) :
    (graph.addEdges source added).edgeCount = graph.edgeCount + added.length := by
  classical
  have sources : (graph.addEdges source added).outgoing.keys.toFinset =
      insert source graph.outgoing.keys.toFinset := by
    ext unit
    simp only [List.mem_toFinset, Finset.mem_insert, Std.HashMap.mem_keys, mem_outgoing_addEdges,
      or_comm]
  have degree (unit : N) : ((graph.addEdges source added).edges unit).length =
      (graph.edges unit).length + if unit = source then added.length else 0 := by
    rw [edges_addEdges]
    by_cases same : unit = source
    · simp [same]
    · simp [same, Ne.symm same]
  -- The source may be new; then it adds nothing to the sum of what was there before.
  have before : graph.edgeCount =
      ∑ unit ∈ insert source graph.outgoing.keys.toFinset, (graph.edges unit).length := by
    rw [edgeCount_eq_sum_keys, Finset.sum_insert_of_eq_zero_if_notMem]
    intro absent
    rw [edges_eq_nil, List.length_nil]
    simpa using absent
  rw [edgeCount_eq_sum_keys, sources, Finset.sum_congr rfl fun unit _ => degree unit,
    Finset.sum_add_distrib, ← before, Finset.sum_ite_eq', if_pos (Finset.mem_insert_self _ _)]

omit [LawfulBEq N] in
theorem edgeCount_empty : (empty : BuildGraph N).edgeCount = 0 := by
  simp [edgeCount_eq_sum, toList, empty]

theorem edgeCount_ofList (entries : List (N × List (Edge N))) :
    (ofList entries).edgeCount = (entries.flatMap (·.2)).length := by
  induction entries using List.reverseRecOn with
  | nil => exact edgeCount_empty
  | append_singleton entries entry inductionHypothesis =>
      obtain ⟨source, added⟩ := entry
      rw [ofList_snoc, edgeCount_addEdges, inductionHypothesis]
      simp

theorem mem_edges_ofList {entries : List (N × List (Edge N))} {edge : Edge N} :
    edge ∈ (ofList entries).edges source ↔ ∃ edges, (source, edges) ∈ entries ∧ edge ∈ edges := by
  simp only [edges_ofList, List.mem_flatMap, List.mem_filter, beq_iff_eq]
  constructor
  · rintro ⟨entry, ⟨member, rfl⟩, held⟩
    exact ⟨entry.2, member, held⟩
  · rintro ⟨edges, member, held⟩
    exact ⟨(source, edges), ⟨member, rfl⟩, held⟩

/-- A unit occurs if it was given as a source or as a target. -/
theorem occurs_ofList_iff (entries : List (N × List (Edge N))) :
    (ofList entries).Occurs unit ↔
      ∃ entry ∈ entries, entry.1 = unit ∨ ∃ edge ∈ entry.2, edge.target = unit := by
  simp only [Occurs, mem_outgoing_ofList, mem_edges_ofList]
  constructor
  · rintro (⟨edges, member⟩ | ⟨source, edge, ⟨edges, member, held⟩, isTarget⟩)
    · exact ⟨_, member, .inl rfl⟩
    · exact ⟨_, member, .inr ⟨edge, held, isTarget⟩⟩
  · rintro ⟨⟨source, edges⟩, member, rfl | ⟨edge, held, isTarget⟩⟩
    · exact .inl ⟨edges, member⟩
    · exact .inr ⟨source, edge, ⟨edges, member, held⟩, isTarget⟩

/-- Each source is counted once. -/
theorem sourceCount_eq_ncard (graph : BuildGraph N) :
    graph.sourceCount = {unit | unit ∈ graph.outgoing}.ncard := by
  classical
  have keys : {unit | unit ∈ graph.outgoing} = (graph.outgoing.keys.toFinset : Set N) := by
    ext unit
    simp
  rw [keys, Set.ncard_coe_finset, List.toFinset_card_of_nodup Std.HashMap.nodup_keys,
    Std.HashMap.length_keys, sourceCount]

/-- However a graph is put together, it keeps what it was given.  The edges of a unit are
those given for it, in order; an added edge changes those of its source only.  Sources are
counted once each, edges as often as they were given, and a graph is empty if no source was
given.  The test for a unit and the list of units agree: they have the units that were given
as a source or as a target. -/
theorem keeps_every_edge (steps : List (Step N)) :
    let graph := build steps
    let entries := given steps
    (∀ unit, graph.edges unit = (entries.filter (·.1 == unit)).flatMap (·.2)) ∧
    (∀ source target kind unit, unit ≠ source →
      (graph.addEdge source target kind).edges unit = graph.edges unit) ∧
    graph.sourceCount = {unit | ∃ edges, (unit, edges) ∈ entries}.ncard ∧
    graph.edgeCount = (entries.flatMap (·.2)).length ∧
    (graph.isEmpty = true ↔ ∀ unit edges, (unit, edges) ∉ entries) ∧
    ∀ unit, (graph.contains unit = true ↔ unit ∈ graph.units) ∧
      (unit ∈ graph.units ↔
        ∃ entry ∈ entries, entry.1 = unit ∨ ∃ edge ∈ entry.2, edge.target = unit) := by
  intro graph entries
  have isGiven : graph = ofList entries := build_eq_ofList steps
  refine ⟨fun unit => ?_, fun source target kind unit apart => ?_, ?_, ?_, ?_, fun unit => ?_⟩
  · rw [isGiven, edges_ofList]
  · rw [addEdge, edges_addEdges, if_neg]
    exact fun same => apart (eq_of_beq same).symm
  · simp only [sourceCount_eq_ncard, isGiven, mem_outgoing_ofList]
  · rw [isGiven, edgeCount_ofList]
  · rw [isEmpty, Std.HashMap.isEmpty_iff_forall_not_mem, isGiven]
    simp only [mem_outgoing_ofList, not_exists]
  · rw [contains_iff, mem_units_iff, isGiven, occurs_ofList_iff]
    exact ⟨Iff.rfl, Iff.rfl⟩

/-- A graph that is begun twice: `0` is a source of the list twice and gets a further edge
behind it, `2` is a source without an edge. -/
def secondStart : List (Step Nat) :=
  [.addEdge 7 8 .runtime, .new, .collect [(0, [⟨1, .compile⟩]), (2, []), (0, [⟨0, .runtime⟩])],
    .addEdge 0 1 .compile, .addEdge 1 0 .reexport]

/-- All edges of `0` are there in order, an edge added to `0` leaves those of `1` alone, and
neither `7` nor `8` occurs. -/
theorem keeps_every_edge_secondStart :
    (build secondStart).edges 0 = [⟨1, .compile⟩, ⟨0, .runtime⟩, ⟨1, .compile⟩] ∧
      ((build secondStart).addEdge 0 2 .runtime).edges 1 = (build secondStart).edges 1 ∧
      (build secondStart).edgeCount = 4 ∧ 2 ∈ (build secondStart).units ∧
      8 ∉ (build secondStart).units := by
  obtain ⟨edges, others, _, edgeCount, _, units⟩ := keeps_every_edge secondStart
  refine ⟨(edges 0).trans (by decide), others 0 2 .runtime 1 (by decide),
    edgeCount.trans (by decide), (units 2).2.mpr (by decide), mt (units 8).2.mp (by decide)⟩

end BuildImpact.BuildGraph
