/-
Module: BuildImpact.Proofs.Graph.Edges
Layer: Proofs
Purpose: What a graph holds, counted.  The edges of different units are different
  edges of the graph, so no set of units has more edges than the graph, and no more
  units than edges are targets.  A search pays for what it still has to find out of a
  reserve over the targets, which bounds the length of every walk of this library.
Imports: Mathlib.Algebra.GroupWithZero.Nat,
  Mathlib.Algebra.Order.BigOperators.Group.Finset, BuildImpact.Graph.Basic
Trusted boundary: none
Main exports: BuildGraph.edges_addEdges, BuildGraph.edges_ofList,
  BuildGraph.forall_edges_ofList, BuildGraph.mem_allEdges, BuildGraph.targets,
  BuildGraph.card_targets_le, BuildGraph.sum_degree_le, BuildGraph.edgeCount_le_sum,
  BuildGraph.reserve, BuildGraph.reserve_add, BuildGraph.reserve_degree_le
Open obligations: none
-/
import Mathlib.Algebra.GroupWithZero.Nat
import Mathlib.Algebra.Order.BigOperators.Group.Finset
import BuildImpact.Graph.Basic

namespace BuildImpact

variable {N : Type} [BEq N] [Hashable N]

namespace BuildGraph

variable {graph : BuildGraph N}

/-! ### The edges of a unit -/

@[simp] theorem edges_empty (unit : N) : (empty : BuildGraph N).edges unit = [] := by
  simp [edges, empty]

/-- Added edges stand behind those that their source has; all else is unchanged. -/
@[simp] theorem edges_addEdges [LawfulBEq N] (source unit : N) (added : List (Edge N)) :
    (graph.addEdges source added).edges unit =
      if source == unit then graph.edges source ++ added else graph.edges unit := by
  simp [edges, addEdges, Std.HashMap.getD_insert]

/-- A graph that is given as a list has the edges that the entries of a unit hold,
joined in the order of the entries. -/
theorem edges_ofList [LawfulBEq N] (entries : List (N × List (Edge N))) (unit : N) :
    (ofList entries).edges unit = (entries.filter (·.1 == unit)).flatMap (·.2) := by
  have added : ∀ (entries : List (N × List (Edge N))) (graph : BuildGraph N),
      (entries.foldl (fun graph entry => graph.addEdges entry.1 entry.2) graph).edges unit =
        graph.edges unit ++ (entries.filter (·.1 == unit)).flatMap (·.2) := by
    intro entries
    induction entries with
    | nil => intro graph; simp
    | cons entry entries inductionHypothesis =>
        intro graph
        rw [List.foldl_cons, inductionHypothesis, edges_addEdges]
        split
        · rename_i isUnit
          simp [eq_of_beq isUnit]
        · rename_i isOther
          simp [isOther]
  rw [ofList, added, edges_empty, List.nil_append]

/-- What is to hold of every edge of such a graph is checked entry by entry. -/
theorem forall_edges_ofList [LawfulBEq N] {entries : List (N × List (Edge N))}
    {Holds : N → Edge N → Prop} :
    (∀ unit, ∀ edge ∈ (ofList entries).edges unit, Holds unit edge) ↔
      ∀ entry ∈ entries, ∀ edge ∈ entry.2, Holds entry.1 edge := by
  simp only [edges_ofList, List.mem_flatMap, List.mem_filter, beq_iff_eq]
  constructor
  · exact fun holds entry member edge held => holds entry.1 edge ⟨entry, ⟨member, rfl⟩, held⟩
  · rintro holds unit edge ⟨entry, ⟨member, rfl⟩, held⟩
    exact holds entry member edge held

/-- A unit with an edge has an entry that holds the edge. -/
theorem getElem?_eq_some_of_mem_edges [LawfulBEq N] {unit : N} {edge : Edge N}
    (given : edge ∈ graph.edges unit) :
    graph.outgoing[unit]? = some (graph.edges unit) := by
  rw [edges, Std.HashMap.getD_eq_getD_getElem?] at given ⊢
  cases entry : graph.outgoing[unit]? with
  | none => simp [entry] at given
  | some edges => rfl

theorem mem_allEdges [LawfulBEq N] {unit : N} {edge : Edge N}
    (given : edge ∈ graph.edges unit) : edge ∈ graph.allEdges := by
  have entry := getElem?_eq_some_of_mem_edges given
  rw [allEdges, List.mem_flatMap]
  exact ⟨(unit, graph.edges unit), Std.HashMap.mem_toList_iff_getElem?_eq_some.mpr entry, given⟩

/-! ### Counting edges -/

theorem edgeCount_eq_sum :
    graph.edgeCount = (graph.toList.map fun entry => entry.2.length).sum := by
  have accumulated : ∀ (entries : List (N × List (Edge N))) (total : Nat),
      entries.foldl (fun total entry => total + entry.2.length) total =
        total + (entries.map fun entry => entry.2.length).sum := by
    intro entries
    induction entries with
    | nil => intro total; simp
    | cons entry entries inductionHypothesis =>
        intro total
        simp [inductionHypothesis, Nat.add_assoc]
  rw [edgeCount, Std.HashMap.fold_eq_foldl_toList, accumulated, Nat.zero_add, toList]

theorem length_allEdges : graph.allEdges.length = graph.edgeCount := by
  rw [allEdges, List.length_flatMap, edgeCount_eq_sum]

open Classical in
/-- The units that some edge points at. -/
noncomputable def targets (graph : BuildGraph N) : Finset N :=
  (graph.allEdges.map (·.target)).toFinset

theorem target_mem_targets [LawfulBEq N] {unit : N} {edge : Edge N}
    (given : edge ∈ graph.edges unit) : edge.target ∈ graph.targets := by
  classical
  rw [targets, List.mem_toFinset]
  exact List.mem_map_of_mem (mem_allEdges given)

theorem card_targets_le : graph.targets.card ≤ graph.edgeCount := by
  classical
  calc graph.targets.card
      ≤ (graph.allEdges.map (·.target)).length := List.toFinset_card_le _
    _ = graph.edgeCount := by rw [List.length_map, length_allEdges]

open Classical in
/-- The edges of the graph are those of its sources. -/
theorem edgeCount_eq_sum_keys [LawfulBEq N] (graph : BuildGraph N) :
    graph.edgeCount = ∑ unit ∈ graph.outgoing.keys.toFinset, (graph.edges unit).length := by
  rw [List.sum_toFinset _ Std.HashMap.nodup_keys, edgeCount_eq_sum, toList,
    ← Std.HashMap.map_fst_toList_eq_keys, List.map_map]
  congr 1
  apply List.map_congr_left
  intro entry member
  have held := Std.HashMap.mem_toList_iff_getElem?_eq_some.mp member
  simp [edges, Std.HashMap.getD_eq_getD_getElem?, held]

/-- No set of units has more edges than the graph. -/
theorem sum_degree_le [LawfulBEq N] (graph : BuildGraph N) (units : Finset N) :
    ∑ unit ∈ units, (graph.edges unit).length ≤ graph.edgeCount := by
  classical
  rw [edgeCount_eq_sum_keys]
  apply Finset.sum_le_sum_of_ne_zero
  intro unit _ some
  obtain ⟨edge, given⟩ := List.exists_mem_of_length_pos (Nat.pos_of_ne_zero some)
  rw [List.mem_toFinset, Std.HashMap.mem_keys, Std.HashMap.mem_iff_isSome_getElem?,
    getElem?_eq_some_of_mem_edges given]
  rfl

/-- A set that holds every unit with an edge has all edges of the graph. -/
theorem edgeCount_le_sum [LawfulBEq N] {units : Finset N}
    (complete : ∀ unit, ∀ edge ∈ graph.edges unit, unit ∈ units) :
    graph.edgeCount ≤ ∑ unit ∈ units, (graph.edges unit).length := by
  classical
  rw [edgeCount_eq_sum_keys]
  apply Finset.sum_le_sum_of_ne_zero
  intro unit _ some
  obtain ⟨edge, given⟩ := List.exists_mem_of_length_pos (Nat.pos_of_ne_zero some)
  exact complete unit edge given

/-! ### The reserve of a search -/

open Classical in
/-- What it costs to find every target that is not found yet. -/
noncomputable def reserve (graph : BuildGraph N) (found : N → Prop) (cost : N → Nat) : Nat :=
  ∑ unit ∈ graph.targets with ¬ found unit, cost unit

/-- Finding a target sets its cost free, and nothing else. -/
theorem reserve_add {found later : N → Prop} {target : N} (isTarget : target ∈ graph.targets)
    (new : ¬ found target) (extended : ∀ unit, later unit ↔ unit = target ∨ found unit)
    (cost : N → Nat) :
    graph.reserve later cost + cost target = graph.reserve found cost := by
  classical
  have waiting : target ∈ graph.targets.filter (¬ found ·) :=
    Finset.mem_filter.mpr ⟨isTarget, new⟩
  have rest : graph.targets.filter (¬ later ·) =
      (graph.targets.filter (¬ found ·)).erase target := by
    ext unit
    simp only [Finset.mem_filter, Finset.mem_erase, extended]
    tauto
  rw [reserve, reserve, Nat.add_comm, ← Finset.add_sum_erase _ cost waiting, ← rest]

/-- The reserve does not change while nothing new is found. -/
theorem reserve_congr {found later : N → Prop} (same : ∀ unit, later unit ↔ found unit)
    (cost : N → Nat) : graph.reserve later cost = graph.reserve found cost := by
  rw [funext fun unit => propext (same unit)]

/-- Once `root` is found, expanding `root` and all that is left to find takes
no more looks at edges than the graph has edges. -/
theorem reserve_degree_le [LawfulBEq N] {found : N → Prop} {root : N} (start : found root) :
    (graph.edges root).length + graph.reserve found (fun unit => (graph.edges unit).length) ≤
      graph.edgeCount := by
  classical
  have apart : root ∉ graph.targets.filter (¬ found ·) := by
    simp [start]
  rw [reserve, ← Finset.sum_insert (f := fun unit => (graph.edges unit).length) apart]
  exact graph.sum_degree_le _

/-- A constant cost is paid for no more units than there are edges. -/
theorem reserve_const_le (found : N → Prop) (cost : Nat) :
    graph.reserve found (fun _ => cost) ≤ graph.edgeCount * cost := by
  classical
  rw [reserve, Finset.sum_const_nat fun _ _ => rfl]
  exact Nat.mul_le_mul_right cost
    ((Finset.card_filter_le _ _).trans card_targets_le)

theorem reserve_add_cost (found : N → Prop) (first second : N → Nat) :
    graph.reserve found (fun unit => first unit + second unit) =
      graph.reserve found first + graph.reserve found second := by
  rw [reserve, Finset.sum_add_distrib, reserve, reserve]

end BuildGraph

end BuildImpact
