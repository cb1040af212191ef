/-
Module: BuildImpact.Proofs.Impact.Chains
Layer: Proofs
Purpose: What an impact holds, said without the walk that finds it.  Every unit of it is
  the root, a direct compile or export target of it, or led to by a chain of compile
  dependencies that are in the impact themselves.  Conversely a chain is followed to its
  end unless an export edge of the impact has met one of its units first; so without
  export edges the impact is what chains lead to, in whatever order edges are given.
Imports: BuildImpact.Proofs.Graph.Walk, BuildImpact.Proofs.Impact.Refinement
Trusted boundary: none
Main exports: Impact.Chain, Impact.Visit.discovery_induction, Impact.Visit.closed,
  Impact.Explained, Impact.expanded_of_chain, BuildGraph.impact_bounds
Open obligations: none
-/
import BuildImpact.Proofs.Graph.Walk
import BuildImpact.Proofs.Impact.Refinement

namespace BuildImpact

variable {N : Type} [BEq N] [Hashable N] {graph : BuildGraph N}

namespace Impact

variable {root unit : N}

/-! ### Chains of compile dependencies -/

/-- `Chain graph root Passes unit`: a walk of one or more edges leads from `root`
to `unit`.  The first edge is a compile edge, the others are compile or runtime
edges, and every unit of the walk behind `root` passes. -/
inductive Chain (graph : BuildGraph N) (root : N) (Passes : N → Prop) : N → Prop where
  | opens {edge : Edge N} (given : edge ∈ graph.edges root) (compile : edge.kind = .compile)
      (passes : Passes edge.target) : Chain graph root Passes edge.target
  | onward {unit : N} {edge : Edge N} (earlier : Chain graph root Passes unit)
      (given : edge ∈ graph.edges unit) (inChain : edge.kind = .compile ∨ edge.kind = .runtime)
      (passes : Passes edge.target) : Chain graph root Passes edge.target

namespace Chain

variable {Passes Admits : N → Prop}

theorem passes (chain : Chain graph root Passes unit) : Passes unit := by
  cases chain with
  | opens _ _ passes => exact passes
  | onward _ _ _ passes => exact passes

theorem reaches (chain : Chain graph root Passes unit) : graph.Reaches root unit := by
  induction chain with
  | opens given _ _ => exact .of_mem given
  | onward _ given _ _ inductionHypothesis => exact inductionHypothesis.trans (.of_mem given)

/-- A chain of a graph is one of every graph with the same edges, and of every
weaker demand on its units. -/
theorem imp {other : BuildGraph N} (chain : Chain graph root Passes unit)
    (given : ∀ unit, ∀ edge ∈ graph.edges unit, edge ∈ other.edges unit)
    (weaker : ∀ unit, graph.Reaches root unit → Passes unit → Admits unit) :
    Chain other root Admits unit := by
  induction chain with
  | opens isEdge compile passes =>
      exact .opens (given _ _ isEdge) compile (weaker _ (.of_mem isEdge) passes)
  | onward earlier isEdge inChain passes inductionHypothesis =>
      have reaches := earlier.reaches.trans (.of_mem isEdge)
      exact .onward inductionHypothesis (given _ _ isEdge) inChain (weaker _ reaches passes)

end Chain

theorem expands_iff {kind : EdgeKind} :
    expands kind = true ↔ kind = .compile ∨ kind = .runtime := by
  cases kind <;> simp [expands]

theorem not_expands_iff {kind : EdgeKind} : expands kind = false ↔ kind = .reexport := by
  cases kind <;> simp [expands]

/-- Outside a chain only compile and export edges count. -/
theorem follows_outside_iff {kind : EdgeKind} :
    follows false kind = true ↔ kind = .compile ∨ kind = .reexport := by
  cases kind <;> simp [follows]

/-- Inside a chain every edge counts. -/
theorem follows_inside (kind : EdgeKind) : follows true kind = true := by
  cases kind <;> rfl

/-! ### What a visit discovers -/

omit [BEq N] [Hashable N] in
theorem Found.mono {before after : List (Discovery N)} (within : before ⊆ after)
    (found : Found before unit) : Found after unit := by
  obtain ⟨discovery, member, same⟩ := found
  exact ⟨discovery, within member, same⟩

omit [BEq N] [Hashable N] in
/-- A unit that is not found is another one than those that are. -/
theorem ne_of_found {discoveries : List (Discovery N)} {other : N}
    (new : ¬ Found discoveries unit) (found : Found discoveries other) : unit ≠ other := by
  rintro rfl
  exact new found

namespace Visit

variable {inChain : Bool} {edges : List (Edge N)} {before after : List (Discovery N)}

/-- A visit keeps what has been discovered. -/
theorem subset (visit : Visit graph inChain edges before after) : before ⊆ after := by
  induction visit with
  | done => exact List.Subset.refl _
  | known _ _ inductionHypothesis => exact inductionHypothesis
  | ignored _ inductionHypothesis => exact inductionHypothesis
  | reexported _ _ inductionHypothesis =>
      exact List.Subset.trans (List.subset_cons_self _ _) inductionHypothesis
  | compiled _ _ _ innerHypothesis restHypothesis
  | needed _ _ _ innerHypothesis restHypothesis =>
      exact List.Subset.trans (List.subset_cons_self _ _)
        (List.Subset.trans innerHypothesis restHypothesis)

/-- The targets of all edges that count are discovered. -/
theorem found_target (visit : Visit graph inChain edges before after) {edge : Edge N}
    (given : edge ∈ edges) (followed : follows inChain edge.kind = true) :
    Found after edge.target := by
  induction visit with
  | done => cases given
  | known old rest inductionHypothesis =>
      rcases List.mem_cons.mp given with rfl | later
      · exact old.mono rest.subset
      · exact inductionHypothesis later followed
  | ignored _ inductionHypothesis =>
      rcases List.mem_cons.mp given with rfl | later
      · cases followed
      · exact inductionHypothesis later followed
  | reexported _ rest inductionHypothesis =>
      rcases List.mem_cons.mp given with rfl | later
      · exact ⟨_, rest.subset List.mem_cons_self, rfl⟩
      · exact inductionHypothesis later followed
  | compiled _ inner rest _ restHypothesis
  | needed _ inner rest _ restHypothesis =>
      rcases List.mem_cons.mp given with rfl | later
      · exact ⟨_, rest.subset (inner.subset List.mem_cons_self), rfl⟩
      · exact restHypothesis later followed

/-- A unit that a visit expands has the targets of all its edges discovered. -/
theorem closed (visit : Visit graph inChain edges before after)
    (expanded : (⟨unit, true⟩ : Discovery N) ∈ after) :
    ⟨unit, true⟩ ∈ before ∨ ∀ edge ∈ graph.edges unit, Found after edge.target := by
  induction visit with
  | done => exact .inl expanded
  | known _ _ inductionHypothesis => exact inductionHypothesis expanded
  | ignored _ inductionHypothesis => exact inductionHypothesis expanded
  | reexported _ _ inductionHypothesis =>
      apply (inductionHypothesis expanded).imp_left
      intro member
      rcases List.mem_cons.mp member with same | old
      · cases same
      · exact old
  | compiled _ inner rest innerHypothesis restHypothesis
  | needed _ inner rest innerHypothesis restHypothesis =>
      rcases restHypothesis expanded with entered | closed
      · rcases innerHypothesis entered with member | closed
        · rcases List.mem_cons.mp member with same | old
          · cases same
            exact .inr fun edge given =>
              (inner.found_target given (follows_inside edge.kind)).mono rest.subset
          · exact .inl old
        · exact .inr fun edge given => (closed edge given).mono rest.subset
      · exact .inr closed

/-- What holds of the units that the edges discover, and is handed on from every
expanded unit to those that its own edges discover, holds of all discoveries of a
visit.  None of them is the root, which was found before, and all are final. -/
theorem discovery_induction {Holds : Discovery N → Prop} {final : List (Discovery N)}
    (onward : ∀ unit, Holds ⟨unit, true⟩ → ∀ edge ∈ graph.edges unit, edge.target ≠ root →
      Found final edge.target → Holds ⟨edge.target, expands edge.kind⟩)
    (visit : Visit graph inChain edges before after) (rootFound : Found before root)
    (within : after ⊆ final)
    (first : ∀ edge ∈ edges, follows inChain edge.kind = true → edge.target ≠ root →
      Found final edge.target → Holds ⟨edge.target, expands edge.kind⟩) :
    ∀ discovery ∈ after, discovery ∈ before ∨ Holds discovery := by
  induction visit with
  | done => exact fun discovery member => .inl member
  | known _ _ inductionHypothesis =>
      exact inductionHypothesis rootFound within fun edge later =>
        first edge (List.mem_cons_of_mem _ later)
  | ignored _ inductionHypothesis =>
      exact inductionHypothesis rootFound within fun edge later =>
        first edge (List.mem_cons_of_mem _ later)
  | @reexported inChain target _ before after new rest inductionHypothesis =>
      have holds : Holds ⟨target, false⟩ :=
        first ⟨target, .reexport⟩ List.mem_cons_self (by cases inChain <;> rfl)
          (ne_of_found new rootFound) ⟨_, within (rest.subset List.mem_cons_self), rfl⟩
      intro discovery member
      have later := inductionHypothesis (found_cons.mpr (.inr rootFound)) within
        (fun edge later => first edge (List.mem_cons_of_mem _ later)) discovery member
      rcases later with old | holds
      · rcases List.mem_cons.mp old with rfl | old
        · exact .inr holds
        · exact .inl old
      · exact .inr holds
  | compiled new inner rest innerHypothesis restHypothesis
  | needed new inner rest innerHypothesis restHypothesis =>
      have holds := first _ List.mem_cons_self rfl (ne_of_found new rootFound)
        ⟨_, within (rest.subset (inner.subset List.mem_cons_self)), rfl⟩
      have entered : ∀ target, Found (target :: _) root := fun _ => found_cons.mpr (.inr rootFound)
      intro discovery member
      have later := restHypothesis ((entered _).mono inner.subset) within
        (fun edge later => first edge (List.mem_cons_of_mem _ later)) discovery member
      rcases later with swept | holds
      · have below := innerHypothesis (entered _) (List.Subset.trans rest.subset within)
          (fun edge given _ => onward _ holds edge given) discovery swept
        rcases below with old | holds
        · rcases List.mem_cons.mp old with rfl | old
          · exact .inr holds
          · exact .inl old
        · exact .inr holds
      · exact .inr holds

end Visit

/-! ### What is in an impact -/

/-- What the walk from `root` makes known about a discovery: it is in the impact, it
is expanded only at the end of a chain, it is left alone only because an export
edge of the impact led to it, and it is a direct target or follows a chain. -/
structure Explained (graph : BuildGraph N) (root : N) (discovery : Discovery N) : Prop where
  member : discovery.unit ∈ graph.impact root
  chained : discovery.expanded = true →
    Chain graph root (fun unit => unit ≠ root ∧ unit ∈ graph.impact root) discovery.unit
  shown : discovery.expanded = false →
    ∃ unit ∈ graph.impact root, ∃ edge ∈ graph.edges unit,
      edge.kind = .reexport ∧ edge.target = discovery.unit
  led : (∃ edge ∈ graph.edges root,
      (edge.kind = .compile ∨ edge.kind = .reexport) ∧ edge.target = discovery.unit) ∨
    ∃ via, Chain graph root (fun unit => unit ≠ root ∧ unit ∈ graph.impact root) via ∧
      ∃ edge ∈ graph.edges via, edge.target = discovery.unit

variable [LawfulBEq N]

theorem root_mem_impact (graph : BuildGraph N) (root : N) : root ∈ graph.impact root :=
  (mem_impact_iff graph root root).mpr
    (Found.mono (visit_impactWithin graph root).subset ⟨_, List.mem_singleton_self _, rfl⟩)

/-- The compile and export targets of the root are in its impact. -/
theorem target_mem_impact {edge : Edge N} (given : edge ∈ graph.edges root)
    (kind : edge.kind = .compile ∨ edge.kind = .reexport) : edge.target ∈ graph.impact root :=
  (mem_impact_iff graph root edge.target).mpr
    ((visit_impactWithin graph root).found_target given (follows_outside_iff.mpr kind))

/-- Every discovery but the root itself is explained. -/
theorem explained_of_mem {discovery : Discovery N}
    (discovered : discovery ∈ (graph.impactWithin (budget graph) root).discoveries) :
    discovery = ⟨root, true⟩ ∨ Explained graph root discovery := by
  have rootFound : Found [⟨root, true⟩] root := ⟨_, List.mem_singleton_self _, rfl⟩
  rw [← List.mem_singleton]
  refine Visit.discovery_induction ?_ (visit_impactWithin graph root) rootFound
    (List.Subset.refl _) ?_ discovery discovered
  -- The edges of an expanded unit prolong its chain.
  · intro unit explained edge given away found
    have member := (mem_impact_iff graph root edge.target).mpr found
    have chain := explained.chained rfl
    refine ⟨member, fun opens => ?_, fun closes => ?_, .inr ⟨unit, chain, edge, given, rfl⟩⟩
    · exact .onward chain given (expands_iff.mp opens) ⟨away, member⟩
    · exact ⟨unit, explained.member, edge, given, not_expands_iff.mp closes, rfl⟩
  -- The edges of the root open chains, or lead to its direct targets.
  · intro edge given followed away found
    have member := (mem_impact_iff graph root edge.target).mpr found
    have kind := follows_outside_iff.mp followed
    refine ⟨member, fun opens => ?_, fun closes => ?_, .inl ⟨edge, given, kind, rfl⟩⟩
    · have compile : edge.kind = .compile := by
        rcases kind with compile | shown
        · exact compile
        · rw [not_expands_iff.mpr shown] at opens
          cases opens
      exact .opens given compile ⟨away, member⟩
    · exact ⟨root, root_mem_impact graph root, edge, given, not_expands_iff.mp closes, rfl⟩

/-- Whether an export edge of the impact leads to a unit. -/
def Shown (graph : BuildGraph N) (root unit : N) : Prop :=
  ∃ member ∈ graph.impact root, ∃ edge ∈ graph.edges member,
    edge.kind = .reexport ∧ edge.target = unit

/-- A chain is expanded unit by unit, as long as none of them is shown. -/
theorem expanded_of_chain
    (chain : Chain graph root (fun unit => unit ≠ root ∧ ¬ Shown graph root unit) unit) :
    ⟨unit, true⟩ ∈ (graph.impactWithin (budget graph) root).discoveries := by
  have expanded : ∀ {unit}, Found (graph.impactWithin (budget graph) root).discoveries unit →
      unit ≠ root ∧ ¬ Shown graph root unit →
        ⟨unit, true⟩ ∈ (graph.impactWithin (budget graph) root).discoveries := by
    rintro _ ⟨⟨unit, expanded⟩, discovered, rfl⟩ ⟨away, hidden⟩
    rcases explained_of_mem discovered with same | explained
    · cases same
      exact discovered
    · cases expanded with
      | true => exact discovered
      | false => exact absurd (explained.shown rfl) hidden
  have visit := visit_impactWithin graph root
  induction chain with
  | opens given compile passes =>
      exact expanded (visit.found_target given (follows_outside_iff.mpr (.inl compile))) passes
  | onward earlier given _ passes inductionHypothesis =>
      rcases visit.closed inductionHypothesis with isRoot | closed
      · cases List.mem_singleton.mp isRoot
        exact absurd rfl earlier.passes.1
      · exact expanded (closed _ given) passes

/-- Whatever a chain without shown units leads to is in the impact. -/
theorem mem_impact_of_chain {via : N} {edge : Edge N}
    (chain : Chain graph root (fun unit => unit ≠ root ∧ ¬ Shown graph root unit) via)
    (given : edge ∈ graph.edges via) : edge.target ∈ graph.impact root := by
  rw [mem_impact_iff]
  rcases (visit_impactWithin graph root).closed (expanded_of_chain chain) with isRoot | closed
  · cases List.mem_singleton.mp isRoot
    exact absurd rfl chain.passes.1
  · exact closed edge given

/-- What is in the impact is the root, a direct target, or follows a chain. -/
theorem led_of_mem_impact (member : unit ∈ graph.impact root) :
    unit = root ∨
      (∃ edge ∈ graph.edges root,
        (edge.kind = .compile ∨ edge.kind = .reexport) ∧ edge.target = unit) ∨
      ∃ via, Chain graph root (fun unit => unit ≠ root ∧ unit ∈ graph.impact root) via ∧
        ∃ edge ∈ graph.edges via, edge.target = unit := by
  obtain ⟨discovery, discovered, rfl⟩ := (mem_impact_iff graph root unit).mp member
  rcases explained_of_mem discovered with same | explained
  · rw [same]
    exact .inl rfl
  · exact .inr explained.led

/-- The impact stays within the reach of the root. -/
theorem reaches_of_mem_impact (member : unit ∈ graph.impact root) : graph.Reaches root unit := by
  rcases led_of_mem_impact member with rfl | ⟨edge, given, _, rfl⟩ | ⟨via, chain, edge, given, rfl⟩
  · exact .refl unit
  · exact .of_mem given
  · exact chain.reaches.trans (.of_mem given)

/-- Where nothing in reach has an export edge, the impact is the root with the
targets of its compile edges and what chains lead to. -/
theorem mem_impact_iff_of_no_reexport
    (plain : ∀ unit, graph.Reaches root unit → ∀ edge ∈ graph.edges unit, edge.kind ≠ .reexport) :
    unit ∈ graph.impact root ↔
      unit = root ∨ (∃ edge ∈ graph.edges root, edge.kind = .compile ∧ edge.target = unit) ∨
        ∃ via, Chain graph root (· ≠ root) via ∧ ∃ edge ∈ graph.edges via, edge.target = unit := by
  constructor
  · intro member
    rcases led_of_mem_impact member with isRoot | ⟨edge, given, kind, same⟩ | ⟨via, chain, onward⟩
    · exact .inl isRoot
    · have compile := kind.resolve_right (plain root (.refl root) edge given)
      exact .inr (.inl ⟨edge, given, compile, same⟩)
    · exact .inr (.inr ⟨via, chain.imp (fun _ _ => id) (fun _ _ passes => passes.1), onward⟩)
  · rintro (rfl | ⟨edge, given, compile, rfl⟩ | ⟨via, chain, edge, given, rfl⟩)
    · exact root_mem_impact graph unit
    · exact target_mem_impact given (.inl compile)
    · refine mem_impact_of_chain (chain.imp (fun _ _ => id) fun unit _ away => ⟨away, ?_⟩) given
      rintro ⟨member, isMember, edge, given, kind, _⟩
      exact plain member (reaches_of_mem_impact isMember) edge given kind

end Impact

namespace BuildGraph

variable [LawfulBEq N]

open Impact in
/-- The impact of a root holds the root with its compile and export targets, and
whatever else it holds is led to by a chain of its own units.  A chain of which no
unit is shown by the impact is followed to all its targets.  Where nothing in reach
has an export edge the impact is therefore the root, its compile targets and what
chains lead to; another order of the edges makes no difference. -/
theorem impact_bounds (graph : BuildGraph N) (root : N) :
    root ∈ graph.impact root ∧
    (∀ edge ∈ graph.edges root, edge.kind = .compile ∨ edge.kind = .reexport →
      edge.target ∈ graph.impact root) ∧
    (∀ unit ∈ graph.impact root, unit = root ∨
      (∃ edge ∈ graph.edges root,
        (edge.kind = .compile ∨ edge.kind = .reexport) ∧ edge.target = unit) ∨
      ∃ via, Chain graph root (fun unit => unit ≠ root ∧ unit ∈ graph.impact root) via ∧
        ∃ edge ∈ graph.edges via, edge.target = unit) ∧
    (∀ via, Chain graph root (fun unit => unit ≠ root ∧ ¬ Shown graph root unit) via →
      ∀ edge ∈ graph.edges via, edge.target ∈ graph.impact root) ∧
    ((∀ unit, graph.Reaches root unit → ∀ edge ∈ graph.edges unit, edge.kind ≠ .reexport) →
      (∀ unit, unit ∈ graph.impact root ↔
        unit = root ∨ (∃ edge ∈ graph.edges root, edge.kind = .compile ∧ edge.target = unit) ∨
          ∃ via, Chain graph root (· ≠ root) via ∧
            ∃ edge ∈ graph.edges via, edge.target = unit) ∧
      ∀ other : BuildGraph N, (∀ unit, (other.edges unit).Perm (graph.edges unit)) →
        ∀ unit, unit ∈ other.impact root ↔ unit ∈ graph.impact root) := by
  refine ⟨root_mem_impact graph root, fun edge given kind => target_mem_impact given kind,
    fun unit member => led_of_mem_impact member,
    fun via chain edge given => mem_impact_of_chain chain given,
    fun plain => ⟨fun unit => mem_impact_iff_of_no_reexport plain, ?_⟩⟩
  intro other same unit
  have into : ∀ unit, ∀ edge ∈ other.edges unit, edge ∈ graph.edges unit :=
    fun unit _ => (same unit).mem_iff.mp
  have back : ∀ unit, ∀ edge ∈ graph.edges unit, edge ∈ other.edges unit :=
    fun unit _ => (same unit).mem_iff.mpr
  have chains : ∀ via, Chain other root (· ≠ root) via ↔ Chain graph root (· ≠ root) via :=
    fun via => ⟨fun chain => chain.imp into (fun _ _ => id),
      fun chain => chain.imp back (fun _ _ => id)⟩
  have plainOther : ∀ unit, other.Reaches root unit →
      ∀ edge ∈ other.edges unit, edge.kind ≠ .reexport :=
    fun unit reaches edge given => plain unit (reaches.imp into) edge (into unit edge given)
  rw [mem_impact_iff_of_no_reexport plain, mem_impact_iff_of_no_reexport plainOther]
  simp only [chains, (same _).mem_iff]

/-- A graph without export edges in which `1`, a compile dependency of `0`, needs
`0` and `2` at run time. -/
def needsBack : BuildGraph Nat :=
  ofList [(0, [⟨3, .runtime⟩, ⟨1, .compile⟩]), (1, [⟨0, .runtime⟩, ⟨2, .runtime⟩])]

/-- In `shownFirst` the chain to `2` is followed to `3`, though the impact shows
another target of `2`.  In `needsBack` the chain to `1` leads to `2`, but not to `3`,
which only the root needs, for no chain passes the root. -/
theorem impact_bounds_shownFirst_needsBack :
    3 ∈ shownFirst.impact 0 ∧ 2 ∈ needsBack.impact 0 ∧ 3 ∉ needsBack.impact 0 := by
  have hidden : ∀ unit, ∀ edge ∈ shownFirst.edges unit, edge.kind = .reexport →
      edge.target ≠ 2 :=
    forall_edges_ofList.mpr (by decide)
  have opens : (⟨2, .compile⟩ : Edge Nat) ∈ shownFirst.edges 0 := by simp [shownFirst, ofList]
  have followed : (⟨3, .runtime⟩ : Edge Nat) ∈ shownFirst.edges 2 := by simp [shownFirst, ofList]
  have plain : ∀ unit, ∀ edge ∈ needsBack.edges unit, edge.kind ≠ .reexport :=
    forall_edges_ofList.mpr (by decide)
  have begins : (⟨1, .compile⟩ : Edge Nat) ∈ needsBack.edges 0 := by simp [needsBack, ofList]
  have needs : (⟨2, .runtime⟩ : Edge Nat) ∈ needsBack.edges 1 := by simp [needsBack, ofList]
  have onlyRoot : ∀ unit, ∀ edge ∈ needsBack.edges unit, edge.target = 3 →
      unit = 0 ∧ edge.kind = .runtime :=
    forall_edges_ofList.mpr (by decide)
  obtain ⟨_, _, _, complete, _⟩ := impact_bounds shownFirst 0
  obtain ⟨_, _, _, _, exact⟩ := impact_bounds needsBack 0
  obtain ⟨members, _⟩ := exact fun unit _ => plain unit
  refine ⟨complete 2 (.opens opens rfl ⟨by decide, ?_⟩) _ followed, ?_, ?_⟩
  · rintro ⟨member, _, edge, given, kind, target⟩
    exact hidden member edge given kind target
  · exact (members 2).mpr (.inr (.inr ⟨1, .opens begins rfl (by decide), _, needs, rfl⟩))
  · rw [members]
    rintro (isRoot | ⟨edge, given, kind, target⟩ | ⟨via, chain, edge, given, target⟩)
    · cases isRoot
    · rw [(onlyRoot 0 edge given target).2] at kind
      cases kind
    · exact chain.passes (onlyRoot via edge given target).1

end BuildGraph

end BuildImpact
