/-
Module: BuildImpact.Proofs.Closure.Agreement
Layer: Proofs
Purpose: What the three searches of compile dependencies have in common.  The closure links
  by compile what lies behind a compile edge of the root; the search behind the gate finds
  routes to exactly these units.  The impact follows chains, and every chain leads behind a
  compile edge; where nothing in reach has an export edge and no compile edge leads back
  to the root, everything behind a compile edge is led to by a chain.
Imports: BuildImpact.Proofs.Closure.Compile, BuildImpact.Proofs.Impact.Chains,
  BuildImpact.Proofs.Route.Shortest
Trusted boundary: none
Main exports: Route.isSome_gatedRoute?_iff, Impact.Chain.compileReaches,
  Impact.chain_of_compileReaches, BuildGraph.gatedRoute?_closure, BuildGraph.impact_closure
Open obligations: none
-/
import BuildImpact.Proofs.Closure.Compile
import BuildImpact.Proofs.Impact.Chains
import BuildImpact.Proofs.Route.Shortest

namespace BuildImpact

variable {N : Type} [BEq N] [Hashable N] {graph : BuildGraph N} {root unit : N}

/-! ### Routes behind the gate -/

namespace Route

/-- What lies behind a compile edge is the end of a walk with such an edge first. -/
theorem compileReaches_iff_walk :
    graph.CompileReaches root unit ↔
      ∃ first edges, first.kind = .compile ∧ Walk graph root (first :: edges) unit := by
  constructor
  · rintro ⟨first, given, compile, edges, walk⟩
    exact ⟨first, edges, compile, .hop given walk⟩
  · rintro ⟨first, edges, compile, walk⟩
    cases walk with
    | hop given onward => exact ⟨first, given, compile, edges, onward⟩

/-- The search behind the gate finds a route to what lies behind a compile edge. -/
theorem isSome_gatedRoute?_iff [LawfulBEq N] :
    (graph.gatedRoute? root unit).isSome ↔ graph.CompileReaches root unit := by
  calc (graph.gatedRoute? root unit).isSome
      ↔ ∃ depth, Gate.compileEdge.Counts depth ∧ Arrives graph .compileEdge root depth unit :=
        isSome_routeTo?_iff
    _ ↔ ∃ first edges, first.kind = .compile ∧ Walk graph root (first :: edges) unit := by
        simp only [arrives_compileEdge_iff]
        constructor
        · rintro ⟨_, first, edges, compile, walk, _⟩
          exact ⟨first, edges, compile, walk⟩
        · rintro ⟨first, edges, compile, walk⟩
          exact ⟨_, first, edges, compile, walk, rfl⟩
    _ ↔ graph.CompileReaches root unit := compileReaches_iff_walk.symm

end Route

/-! ### Chains of an impact -/

namespace Impact

variable {Passes : N → Prop}

/-- A chain leads behind the compile edge that opens it. -/
theorem Chain.compileReaches (chain : Chain graph root Passes unit) :
    graph.CompileReaches root unit := by
  induction chain with
  | opens given compile _ => exact ⟨_, given, compile, .refl _⟩
  | onward _ given _ _ inductionHypothesis => exact inductionHypothesis.trans (.of_mem given)

/-- Without export edges in reach, and with no way back to the root, everything behind a
compile edge is at the end of a chain past the root. -/
theorem chain_of_compileReaches
    (plain : ∀ unit, graph.Reaches root unit → ∀ edge ∈ graph.edges unit, edge.kind ≠ .reexport)
    (apart : ¬ graph.CompileReaches root root) (behind : graph.CompileReaches root unit) :
    Chain graph root (· ≠ root) unit := by
  have away : ∀ {other}, graph.CompileReaches root other → other ≠ root := by
    rintro other behind rfl
    exact apart behind
  obtain ⟨first, given, compile, reaches⟩ := behind
  refine reaches.closed (fun unit chain edge given => ?_)
    (.opens given compile (away ⟨first, given, compile, .refl _⟩))
  have inChain : edge.kind = .compile ∨ edge.kind = .runtime := by
    have hidden := plain unit chain.reaches edge given
    cases kind : edge.kind with
    | compile => exact .inl rfl
    | reexport => exact absurd kind hidden
    | runtime => exact .inr rfl
  exact .onward chain given inChain (away (chain.compileReaches.trans (.of_mem given)))

variable [LawfulBEq N]

/-- Whatever is in an impact is linked by compile, or shown by the root itself. -/
theorem compile_or_shown_of_mem (member : unit ∈ graph.impact root) :
    (graph.closure root)[unit]? = some .compile ∨
      ∃ edge ∈ graph.edges root, edge.kind = .reexport ∧ edge.target = unit := by
  rw [BuildGraph.getElem?_closure_eq_compile_iff]
  rcases led_of_mem_impact member with
    isRoot | ⟨edge, given, compile | shown, rfl⟩ | ⟨via, chain, edge, given, rfl⟩
  · exact .inl (.inl isRoot)
  · exact .inl (.inr ⟨edge, given, compile, .refl _⟩)
  · exact .inr ⟨edge, given, shown, rfl⟩
  · exact .inl (.inr (chain.compileReaches.trans (.of_mem given)))

/-- Without export edges in reach, and with no way back to the root, the impact holds
the root and everything behind its compile edges. -/
theorem mem_impact_iff_compileReaches
    (plain : ∀ unit, graph.Reaches root unit → ∀ edge ∈ graph.edges unit, edge.kind ≠ .reexport)
    (apart : ¬ graph.CompileReaches root root) :
    unit ∈ graph.impact root ↔ unit = root ∨ graph.CompileReaches root unit := by
  rw [mem_impact_iff_of_no_reexport plain]
  refine or_congr_right ⟨?_, fun behind => ?_⟩
  · rintro (⟨edge, given, compile, rfl⟩ | ⟨via, chain, edge, given, rfl⟩)
    · exact ⟨edge, given, compile, .refl _⟩
    · exact chain.compileReaches.trans (.of_mem given)
  · cases chain_of_compileReaches plain apart behind with
    | opens given compile _ => exact .inl ⟨_, given, compile, rfl⟩
    | onward earlier given _ _ => exact .inr ⟨_, earlier, _, given, rfl⟩

end Impact

namespace BuildGraph

variable [LawfulBEq N]

/-- The search behind the gate and the closure agree: there is a route to another unit
than the root exactly if that unit is linked by compile.  There is one back to the root
exactly if a compile edge of it leads back, and then the closure links everything in
reach by compile. -/
theorem gatedRoute?_closure (graph : BuildGraph N) (root : N) :
    (∀ unit, unit ≠ root →
      ((graph.gatedRoute? root unit).isSome ↔ (graph.closure root)[unit]? = some .compile)) ∧
    ((graph.gatedRoute? root root).isSome ↔
      ∃ edge ∈ graph.edges root, edge.kind = .compile ∧ graph.Reaches edge.target root) ∧
    ((graph.gatedRoute? root root).isSome →
      ∀ unit, graph.Reaches root unit → (graph.closure root)[unit]? = some .compile) := by
  refine ⟨fun unit away => ?_, Route.isSome_gatedRoute?_iff, fun back unit reaches => ?_⟩
  · rw [Route.isSome_gatedRoute?_iff, getElem?_closure_eq_compile_iff]
    exact (or_iff_right away).symm
  · have behind : graph.CompileReaches root root := Route.isSome_gatedRoute?_iff.mp back
    exact (graph.getElem?_closure_eq_compile_iff root unit).mpr (.inr (behind.trans reaches))

/-- In `chainBack` a route leads back to `0`, so `2`, which `0` needs only at run time,
is linked by compile, and behind the gate there is a route to it. -/
theorem gatedRoute?_closure_chainBack :
    (chainBack.gatedRoute? 0 0).isSome ∧ (chainBack.closure 0)[2]? = some .compile ∧
      2 ≠ 0 ∧ (chainBack.gatedRoute? 0 2).isSome := by
  have opens : (⟨1, .compile⟩ : Edge Nat) ∈ chainBack.edges 0 := by simp [chainBack, ofList]
  have needs : (⟨2, .runtime⟩ : Edge Nat) ∈ chainBack.edges 0 := by simp [chainBack, ofList]
  have needed : (⟨0, .runtime⟩ : Edge Nat) ∈ chainBack.edges 1 := by simp [chainBack, ofList]
  obtain ⟨others, back, everything⟩ := gatedRoute?_closure chainBack 0
  have cycle := back.mpr ⟨_, opens, rfl, .of_mem needed⟩
  have linked := everything cycle 2 (.of_mem needs)
  exact ⟨cycle, linked, by decide, (others 2 (by decide)).mpr linked⟩

/-- The impact and the closure agree on compile dependencies: what is in the impact is
linked by compile or is shown by the root, and where nothing in reach has an export edge
and no compile edge of the root leads back to it, the impact is what is linked by
compile. -/
theorem impact_closure (graph : BuildGraph N) (root : N) :
    (∀ unit ∈ graph.impact root, (graph.closure root)[unit]? = some .compile ∨
      ∃ edge ∈ graph.edges root, edge.kind = .reexport ∧ edge.target = unit) ∧
    ((∀ unit, graph.Reaches root unit → ∀ edge ∈ graph.edges unit, edge.kind ≠ .reexport) →
      (¬ ∃ edge ∈ graph.edges root, edge.kind = .compile ∧ graph.Reaches edge.target root) →
      ∀ unit, unit ∈ graph.impact root ↔ (graph.closure root)[unit]? = some .compile) := by
  refine ⟨fun unit => Impact.compile_or_shown_of_mem, fun plain apart unit => ?_⟩
  rw [Impact.mem_impact_iff_compileReaches plain apart, getElem?_closure_eq_compile_iff]

/-- A graph in which the compile dependency `1` of `0` needs `2`, and `0` itself needs
`3`, at run time. -/
def oneWay : BuildGraph Nat :=
  ofList [(0, [⟨3, .runtime⟩, ⟨1, .compile⟩]), (1, [⟨2, .runtime⟩])]

/-- In `oneWay` the closure links `2` by compile and `3` otherwise, and so `2` alone of
them is in the impact.  The impact of `shownFirst` holds `1`, which `0` shows. -/
theorem impact_closure_oneWay :
    2 ∈ oneWay.impact 0 ∧ 3 ∉ oneWay.impact 0 ∧
      1 ∈ shownFirst.impact 0 ∧ ((shownFirst.closure 0)[1]? = some .compile ∨
        ∃ edge ∈ shownFirst.edges 0, edge.kind = .reexport ∧ edge.target = 1) := by
  have plain : ∀ unit, ∀ edge ∈ oneWay.edges unit, edge.kind ≠ .reexport :=
    forall_edges_ofList.mpr (by decide)
  have noBack : ∀ unit, ∀ edge ∈ oneWay.edges unit, edge.target ≠ 0 :=
    forall_edges_ofList.mpr (by decide)
  have opens : ∀ unit, ∀ edge ∈ oneWay.edges unit, edge.kind = .compile → edge.target = 1 :=
    forall_edges_ofList.mpr (by decide)
  have onlyRoot : ∀ unit, ∀ edge ∈ oneWay.edges unit, edge.target = 3 → unit = 0 :=
    forall_edges_ofList.mpr (by decide)
  have apart : ∀ edge ∈ oneWay.edges 0, ¬ oneWay.Reaches edge.target 0 := by
    intro edge given reaches
    rcases reaches.eq_or_exists_edge with isRoot | ⟨unit, _, _, last, isLast, isRoot⟩
    · exact noBack 0 edge given isRoot
    · exact noBack unit last isLast isRoot
  have linked : (oneWay.closure 0)[2]? = some .compile := by
    have first : (⟨1, .compile⟩ : Edge Nat) ∈ oneWay.edges 0 := by simp [oneWay, ofList]
    have second : (⟨2, .runtime⟩ : Edge Nat) ∈ oneWay.edges 1 := by simp [oneWay, ofList]
    exact (getElem?_closure_eq_compile_iff oneWay 0 2).mpr
      (.inr ⟨_, first, rfl, .of_mem second⟩)
  have unlinked : (oneWay.closure 0)[3]? ≠ some .compile := by
    rw [Ne, getElem?_closure_eq_compile_iff]
    rintro (isRoot | ⟨edge, given, compile, reaches⟩)
    · cases isRoot
    · rcases reaches.eq_or_exists_edge with same | ⟨unit, _, before, last, isLast, same⟩
      · rw [opens 0 edge given compile] at same
        cases same
      · exact apart edge given (onlyRoot unit last isLast same ▸ before)
  have shown : (⟨1, .reexport⟩ : Edge Nat) ∈ shownFirst.edges 0 := by simp [shownFirst, ofList]
  obtain ⟨_, agree⟩ := impact_closure oneWay 0
  have noReturn : ¬ ∃ edge ∈ oneWay.edges 0, edge.kind = .compile ∧
      oneWay.Reaches edge.target 0 := by
    rintro ⟨edge, given, _, reaches⟩
    exact apart edge given reaches
  have members := agree (fun unit _ => plain unit) noReturn
  have member := Impact.target_mem_impact shown (.inr rfl)
  exact ⟨(members 2).mpr linked, fun isMember => unlinked ((members 3).mp isMember), member,
    (impact_closure shownFirst 0).1 1 member⟩

end BuildGraph

end BuildImpact
