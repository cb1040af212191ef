/-
Module: BuildImpact.Proofs.Closure.EdgeOrder
Layer: Proofs
Purpose: How far the order of edges shows in a closure.  Outside the reach of the root's
  compile edges a unit is linked by export if no export edge of the root before the first
  one to it leads there past the root, and by runtime otherwise.  Reachability does not
  know the order of edges, so two graphs that differ in that order alone, but have the
  root's export edges in the same order, have the same closure.
Imports: BuildImpact.Proofs.Closure.Reexport
Trusted boundary: none
Main exports: BuildGraph.exports, BuildGraph.BeforeExport, BuildGraph.exportsFirst_iff_exports,
  BuildGraph.getElem?_closure_congr, BuildGraph.closure_by_export_order
Open obligations: none
-/
import BuildImpact.Proofs.Closure.Reexport

namespace BuildImpact

variable {N : Type} [BEq N] [Hashable N] {graph other : BuildGraph N} {root unit : N}

namespace BuildGraph

/-- The export edges of a unit, in the order given. -/
def exports (graph : BuildGraph N) (unit : N) : List (Edge N) :=
  (graph.edges unit).filter (·.kind == .reexport)

/-- Whether `front` is what stands before the first export edge of `root` to `unit`. -/
def BeforeExport (graph : BuildGraph N) (root unit : N) (front : List (Edge N)) : Prop :=
  (∃ edge back, graph.edges root = front ++ edge :: back ∧
    edge.kind = .reexport ∧ edge.target = unit) ∧
  ∀ earlier ∈ front, earlier.kind = .reexport → earlier.target ≠ unit

/-! ### The first export edge to a unit -/

/-- The export edge that comes first in the sense of `ExportsFirst` is the first one to
its target, for an earlier one to the same target would lead there at once. -/
theorem exportsFirst_iff_beforeExport (away : unit ≠ root) :
    graph.ExportsFirst root unit ↔ ∃ front, graph.BeforeExport root unit front ∧
      ∀ earlier ∈ front, earlier.kind = .reexport →
        ¬ graph.ReachesAvoiding root earlier.target unit := by
  constructor
  · rintro ⟨front, edge, back, edges, kind, target, unseen⟩
    refine ⟨front, ⟨⟨edge, back, edges, kind, target⟩, ?_⟩, unseen⟩
    rintro earlier member isExport rfl
    exact unseen earlier member isExport (.refl away)
  · rintro ⟨front, ⟨⟨edge, back, edges, kind, target⟩, _⟩, unseen⟩
    exact ⟨front, edge, back, edges, kind, target, unseen⟩

/-- Only the export edges of the root decide which of its export edges comes first. -/
theorem exportsFirst_iff_exports :
    graph.ExportsFirst root unit ↔
      ∃ front edge back, graph.exports root = front ++ edge :: back ∧ edge.target = unit ∧
        ∀ earlier ∈ front, ¬ graph.ReachesAvoiding root earlier.target unit := by
  constructor
  · rintro ⟨front, edge, back, edges, kind, target, unseen⟩
    refine ⟨front.filter (·.kind == .reexport), edge, back.filter (·.kind == .reexport),
      ?_, target, ?_⟩
    · have kept : (edge.kind == .reexport) = true := beq_iff_eq.mpr kind
      rw [exports, edges, List.filter_append, List.filter_cons, if_pos kept]
    · intro earlier member
      obtain ⟨member, isExport⟩ := List.mem_filter.mp member
      exact unseen earlier member (eq_of_beq isExport)
  · rintro ⟨front, edge, back, edges, target, unseen⟩
    obtain ⟨before, onward, split, exported, rest⟩ := List.filter_eq_append_iff.mp edges
    obtain ⟨hidden, after, rfl, noExport, isExport, _⟩ := List.filter_eq_cons_iff.mp rest
    refine ⟨before ++ hidden, edge, after, by rw [split, List.append_assoc],
      eq_of_beq isExport, target, ?_⟩
    intro earlier member kind
    rcases List.mem_append.mp member with isBefore | isHidden
    · refine unseen earlier ?_
      rw [← exported]
      exact List.mem_filter.mpr ⟨isBefore, beq_iff_eq.mpr kind⟩
    · exact absurd (beq_iff_eq.mpr kind) (noExport earlier isHidden)

/-! ### The same edges in another order -/

theorem ReachesAvoiding.imp {avoided source target : N}
    (reaches : graph.ReachesAvoiding avoided source target)
    (given : ∀ unit, ∀ edge ∈ graph.edges unit, edge ∈ other.edges unit) :
    other.ReachesAvoiding avoided source target := by
  obtain ⟨edges, walk, avoids⟩ := reaches
  exact ⟨edges, walk.imp given, avoids⟩

theorem CompileReaches.imp (behind : graph.CompileReaches root unit)
    (given : ∀ unit, ∀ edge ∈ graph.edges unit, edge ∈ other.edges unit) :
    other.CompileReaches root unit := by
  obtain ⟨edge, isEdge, kind, reaches⟩ := behind
  exact ⟨edge, given root edge isEdge, kind, reaches.imp given⟩

section SameEdges

variable (same : ∀ unit, ∀ edge, edge ∈ graph.edges unit ↔ edge ∈ other.edges unit)

include same

theorem reaches_congr {source target : N} :
    graph.Reaches source target ↔ other.Reaches source target :=
  ⟨fun reaches => reaches.imp fun unit edge => (same unit edge).mp,
    fun reaches => reaches.imp fun unit edge => (same unit edge).mpr⟩

theorem reachesAvoiding_congr {avoided source target : N} :
    graph.ReachesAvoiding avoided source target ↔ other.ReachesAvoiding avoided source target :=
  ⟨fun reaches => reaches.imp fun unit edge => (same unit edge).mp,
    fun reaches => reaches.imp fun unit edge => (same unit edge).mpr⟩

theorem compileReaches_congr :
    graph.CompileReaches root unit ↔ other.CompileReaches root unit :=
  ⟨fun behind => behind.imp fun unit edge => (same unit edge).mp,
    fun behind => behind.imp fun unit edge => (same unit edge).mpr⟩

theorem exportsFirst_congr (order : graph.exports root = other.exports root) :
    graph.ExportsFirst root unit ↔ other.ExportsFirst root unit := by
  simp only [exportsFirst_iff_exports, order, reachesAvoiding_congr same]

variable [LawfulBEq N]

/-- Two graphs with the same edges have the same closure, in whatever order they hold
them, if the same units come first among the exports of the root. -/
theorem getElem?_closure_congr
    (first : ∀ unit, graph.ExportsFirst root unit ↔ other.ExportsFirst root unit) (unit : N) :
    (graph.closure root)[unit]? = (other.closure root)[unit]? := by
  by_cases compiled : unit = root ∨ graph.CompileReaches root unit
  · have there := compiled.imp_right (compileReaches_congr same).mp
    rw [(graph.getElem?_closure_eq_compile_iff root unit).mpr compiled,
      (other.getElem?_closure_eq_compile_iff root unit).mpr there]
  obtain ⟨away, outside⟩ := not_or.mp compiled
  have outsideThere := mt (compileReaches_congr same).mpr outside
  by_cases reaches : graph.Reaches root unit
  · by_cases shown : graph.ExportsFirst root unit
    · rw [getElem?_closure_of_exportsFirst away outside shown,
        getElem?_closure_of_exportsFirst away outsideThere ((first unit).mp shown)]
    · rw [(getElem?_closure_eq_runtime_iff away outside reaches).mpr shown,
        (getElem?_closure_eq_runtime_iff away outsideThere
          ((reaches_congr same).mp reaches)).mpr (mt (first unit).mpr shown)]
  · rw [Std.HashMap.getElem?_eq_none (mt (graph.mem_closure_iff root unit).mp reaches),
      Std.HashMap.getElem?_eq_none
        (mt (other.mem_closure_iff root unit).mp (mt (reaches_congr same).mpr reaches))]

end SameEdges

variable [LawfulBEq N]

/-- Among the units that the root reaches outside the reach of its compile edges, those
are linked by export to which the root has an export edge such that no export edge before
the first of these leads there past the root; all others are linked by runtime.  So the
order of edges shows only where it is the order of the root's export edges. -/
theorem closure_by_export_order (graph : BuildGraph N) (root : N) :
    (∀ unit, graph.Reaches root unit → ¬ graph.CompileReaches root unit → unit ≠ root →
      ((graph.closure root)[unit]? = some .reexport ↔
        ∃ front, graph.BeforeExport root unit front ∧
          ∀ earlier ∈ front, earlier.kind = .reexport →
            ¬ graph.ReachesAvoiding root earlier.target unit) ∧
      ((graph.closure root)[unit]? ≠ some .reexport →
        (graph.closure root)[unit]? = some .runtime)) ∧
    ∀ other : BuildGraph N, (∀ unit, (graph.edges unit).Perm (other.edges unit)) →
      graph.exports root = other.exports root →
      ∀ unit : N, (graph.closure root)[unit]? = (other.closure root)[unit]? := by
  constructor
  · intro unit reaches outside away
    have exported := getElem?_closure_eq_reexport_iff away outside
    refine ⟨exported.trans (exportsFirst_iff_beforeExport away), fun notExported => ?_⟩
    exact (getElem?_closure_eq_runtime_iff away outside reaches).mpr (mt exported.mpr notExported)
  · intro other reordered order
    have same : ∀ unit, ∀ edge, edge ∈ graph.edges unit ↔ edge ∈ other.edges unit :=
      fun unit _ => (reordered unit).mem_iff
    exact getElem?_closure_congr same fun _ => exportsFirst_congr same order

/-- A graph in which `0` shows `1`, then `2` and `3`, while `1` needs `3` and `0`. -/
def showsAround : BuildGraph Nat :=
  ofList [(0, [⟨1, .reexport⟩, ⟨4, .compile⟩, ⟨2, .reexport⟩, ⟨3, .reexport⟩]),
    (1, [⟨3, .runtime⟩, ⟨0, .runtime⟩])]

/-- The edges of `showsAround` in another order, in which `0` shows the same units in the
same order. -/
def showsAroundLate : BuildGraph Nat :=
  ofList [(1, [⟨0, .runtime⟩, ⟨3, .runtime⟩]),
    (0, [⟨4, .compile⟩, ⟨1, .reexport⟩, ⟨2, .reexport⟩, ⟨3, .reexport⟩])]

/-- Both graphs hold the same edges. -/
theorem edges_showsAround : ∀ unit, (showsAround.edges unit).Perm (showsAroundLate.edges unit) := by
  intro unit
  simp only [showsAround, showsAroundLate, edges_ofList, List.filter_cons, List.filter_nil]
  by_cases isZero : unit = 0
  · subst isZero
    decide
  · by_cases isOne : unit = 1
    · subst isOne
      decide
    · simp [Ne.symm isZero, Ne.symm isOne]

/-- Unit `1` leads to `2` only by way of the root and to `3` at once.  So the root's edge
to `2` gives the link, and that to `3` does not, in whatever order the other edges are. -/
theorem closure_by_export_order_showsAround :
    (showsAround.Reaches 0 2 ∧ ¬ showsAround.CompileReaches 0 2 ∧
      (showsAround.closure 0)[2]? = some .reexport) ∧
    (showsAround.Reaches 0 3 ∧ ¬ showsAround.CompileReaches 0 3 ∧
      (showsAround.closure 0)[3]? = some .runtime) ∧
    (showsAroundLate.closure 0)[3]? = some .runtime := by
  have edges : showsAround.edges 0 =
      [⟨1, .reexport⟩, ⟨4, .compile⟩, ⟨2, .reexport⟩, ⟨3, .reexport⟩] ∧
      showsAround.edges 1 = [⟨3, .runtime⟩, ⟨0, .runtime⟩] := by
    simp [showsAround, ofList]
  have onlySources : ∀ unit, ∀ edge ∈ showsAround.edges unit, unit = 0 ∨ unit = 1 :=
    forall_edges_ofList.mpr (by decide)
  have opens : ∀ unit, ∀ edge ∈ showsAround.edges unit, edge.kind = .compile → edge.target = 4 :=
    forall_edges_ofList.mpr (by decide)
  have toSecond : ∀ unit, ∀ edge ∈ showsAround.edges unit, edge.target = 2 → unit = 0 :=
    forall_edges_ofList.mpr (by decide)
  have outside : ∀ unit, unit ≠ 4 → ¬ showsAround.CompileReaches 0 unit := by
    rintro unit other ⟨edge, given, kind, reaches⟩
    rw [opens 0 edge given kind] at reaches
    have stays : ∀ unit, unit = 4 → ∀ edge ∈ showsAround.edges unit, edge.target = 4 := by
      rintro _ rfl edge given
      exact absurd (onlySources 4 edge given) (by decide)
    exact other (reaches.closed stays rfl)
  have second : (⟨2, .reexport⟩ : Edge Nat) ∈ showsAround.edges 0 := by simp [edges]
  have third : (⟨3, .reexport⟩ : Edge Nat) ∈ showsAround.edges 0 := by simp [edges]
  obtain ⟨links, reordered⟩ := closure_by_export_order showsAround 0
  have late := reordered showsAroundLate edges_showsAround
    (by simp [exports, showsAround, showsAroundLate, ofList])
  obtain ⟨secondIff, _⟩ := links 2 (.of_mem second) (outside 2 (by decide)) (by decide)
  obtain ⟨thirdIff, otherwise⟩ := links 3 (.of_mem third) (outside 3 (by decide)) (by decide)
  have secondLink : (showsAround.closure 0)[2]? = some .reexport := by
    refine secondIff.mpr ⟨[⟨1, .reexport⟩, ⟨4, .compile⟩],
      ⟨⟨⟨2, .reexport⟩, [⟨3, .reexport⟩], edges.1, rfl, rfl⟩, by decide⟩, ?_⟩
    -- Nothing but the root has an edge to `2`, so that a walk past the root stays elsewhere.
    intro earlier member kind reaches
    have stays : ∀ unit, unit ≠ 0 → unit ≠ 2 → ∀ edge ∈ showsAround.edges unit,
        edge.target ≠ 2 :=
      fun unit away _ edge given same => away (toSecond unit edge given same)
    have start : earlier.target ≠ 2 := by
      rintro same
      simp only [List.mem_cons, List.not_mem_nil, or_false] at member
      rcases member with rfl | rfl <;> cases same
    exact reaches.closed stays start rfl
  have thirdLink : (showsAround.closure 0)[3]? = some .runtime := by
    refine otherwise fun exported => ?_
    obtain ⟨front, ⟨⟨edge, back, split, kind, target⟩, _⟩, unseen⟩ := thirdIff.mp exported
    have needs : (⟨3, .runtime⟩ : Edge Nat) ∈ showsAround.edges 1 := by simp [edges]
    have below : showsAround.ReachesAvoiding 0 1 3 := .hop needs (by decide) (.refl (by decide))
    rw [edges.1] at split
    cases front with
    | nil =>
        cases split
        cases target
    | cons first front =>
        obtain ⟨rfl, _⟩ := List.cons.inj split
        exact unseen _ List.mem_cons_self rfl below
  exact ⟨⟨.of_mem second, outside 2 (by decide), secondLink⟩,
    ⟨.of_mem third, outside 3 (by decide), thirdLink⟩, (late 3).symm.trans thirdLink⟩

end BuildGraph

end BuildImpact
