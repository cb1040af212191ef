/-
Module: BuildImpact.Proofs.Closure.Reexport
Layer: Proofs
Purpose: Which units of a closure are linked by export, outside what compile edges of the
  root reach.  The walk goes to the bottom of one export target before it looks at the
  next, and the first link stays.  So the root's export edge to a unit gives the link
  only if no export edge before it leads there; any other unit is linked by runtime, also
  one that the root shows directly but has been met below another unit it shows.
Imports: BuildImpact.Proofs.Closure.Compile
Trusted boundary: none
Main exports: Closure.Sweep.reached_avoiding, Closure.Sweep.runtime_kept,
  Closure.Sweep.link_of_first, BuildGraph.ExportsFirst,
  BuildGraph.getElem?_closure_eq_reexport_iff, BuildGraph.closure_of_reexport_edge
Open obligations: none
-/
import BuildImpact.Proofs.Closure.Compile

namespace BuildImpact

variable {N : Type} [BEq N] [Hashable N] {graph : BuildGraph N}

namespace Closure

variable {root unit : N}

/-! ### Sweeps outside the chains -/

/-- Below a unit that opens no chain every link is by runtime, and opens none. -/
theorem Frame.found_opened {frame : Frame N} {edge : Edge N}
    (outside : (frame.found edge).2 = false) (other : Edge N) :
    (frame.opened graph edge).found other = (.runtime, false) := by
  obtain ⟨target, kind⟩ := other
  rw [found, opened, outside]
  cases kind <;> rfl

namespace Sweep

variable [LawfulBEq N] {frame : Frame N} {before after : Ledger N}

/-- A unit that a frame without permission enters has no link before. -/
theorem new_of_due {edge : Edge N}
    (due : edge.target ∉ before.links ∨ frame.revisits edge = true)
    (outside : (frame.found edge).2 = false) : edge.target ∉ before.links := by
  refine due.resolve_right fun again => ?_
  rw [(Frame.revisits_iff.mp again).2] at outside
  cases outside

/-- What a sweep links is behind a compile edge of the root, or reached past the
root from the target of an edge that opens no chain. -/
theorem reached_avoiding (sweep : Sweep graph frame before after)
    (owed : frame.Owed graph root) (rootLinked : root ∈ before.links)
    (linked : unit ∈ after.links) :
    unit ∈ before.links ∨ graph.CompileReaches root unit ∨
      ∃ edge ∈ frame.pending, (frame.found edge).2 = false ∧
        graph.ReachesAvoiding root edge.target unit := by
  induction sweep with
  | leave => exact .inl linked
  | pass next _ _ _ inductionHypothesis =>
      apply (inductionHypothesis (owed.rest next _) rootLinked linked).imp_right
      apply Or.imp_right
      rintro ⟨edge, later, outside, reaches⟩
      exact ⟨edge, next ▸ List.mem_cons_of_mem _ later, outside, reaches⟩
  | @enter frame opening pending before middle after next due inner _ innerHypothesis
      restHypothesis =>
      have isPending : opening ∈ frame.pending := next ▸ List.mem_cons_self
      have rootEntered := inner.mem_of_mem (Ledger.mem_enter.mpr (.inr rootLinked))
      rcases restHypothesis (owed.rest next _) rootEntered linked with
        entered | behind | ⟨edge, later, outside, reaches⟩
      · -- The target of an edge that opens no chain is new, so it is not the root.
        have away : (frame.found opening).2 = false → opening.target ≠ root := by
          rintro outside rfl
          exact new_of_due due outside rootLinked
        rcases innerHypothesis (owed.opened isPending)
            (Ledger.mem_enter.mpr (.inr rootLinked)) entered with
          old | behind | ⟨edge, given, outside, reaches⟩
        · rcases Ledger.mem_enter.mp old with rfl | old
          · cases opened : (frame.found opening).2 with
            | true => exact .inr (.inl (owed.compileReaches isPending opened))
            | false => exact .inr (.inr ⟨opening, isPending, opened, .refl (away opened)⟩)
          · exact .inl old
        · exact .inr (.inl behind)
        · have given := (strongestFirst_perm _).mem_iff.mp given
          cases opened : (frame.found opening).2 with
          | true =>
              rw [Frame.found_snd_iff.mpr (.inl opened)] at outside
              cases outside
          | false =>
              exact .inr (.inr ⟨opening, isPending, opened, reaches.hop given (away opened)⟩)
      · exact .inr (.inl behind)
      · exact .inr (.inr ⟨edge, next ▸ List.mem_cons_of_mem _ later, outside, reaches⟩)

/-- A unit outside the reach of the root's compile edges gets no other link than
runtime from a sweep whose own edges give it none. -/
theorem runtime_kept (sweep : Sweep graph frame before after) (owed : frame.Owed graph root)
    (outside : ¬ graph.CompileReaches root unit)
    (plain : ∀ edge ∈ frame.pending, edge.target = unit → (frame.found edge).1 = .runtime)
    (runtime : ∀ link ∈ before.links[unit]?, link = .runtime) :
    ∀ link ∈ after.links[unit]?, link = .runtime := by
  induction sweep with
  | leave => exact runtime
  | pass next _ _ _ inductionHypothesis =>
      exact inductionHypothesis (owed.rest next _)
        (fun edge later => plain edge (next ▸ List.mem_cons_of_mem _ later)) runtime
  | @enter frame opening pending before middle after next due _ _ innerHypothesis
      restHypothesis =>
      have isPending : opening ∈ frame.pending := next ▸ List.mem_cons_self
      have inOpened := owed.opened isPending
      refine restHypothesis (owed.rest next _)
        (fun edge later => plain edge (next ▸ List.mem_cons_of_mem _ later))
        (innerHypothesis inOpened ?_ ?_)
      · rintro edge given rfl
        cases opened : (frame.found opening).2 with
        | true => exact absurd (inOpened.chain opened edge given) outside
        | false => rw [Frame.found_opened opened]
      · intro link found
        simp only [Ledger.enter, Std.HashMap.getElem?_insert] at found
        split at found
        · rename_i isTarget
          rw [← Option.some.inj found]
          exact plain opening isPending (eq_of_beq isTarget)
        · exact runtime link found

/-- The first pending edge gives its link to a target that has none, and the rest
of the sweep leaves it. -/
theorem link_of_first (sweep : Sweep graph frame before after)
    (permitted : ∀ unit ∈ frame.revisit, unit = root)
    (rootLinked : before.links[root]? = some .compile) {edge : Edge N} {pending : List (Edge N)}
    (first : frame.pending = edge :: pending) (new : edge.target ∉ before.links) :
    after.links[edge.target]? = some (frame.found edge).1 := by
  obtain ⟨middle, inner, rest⟩ := sweep.exists_entered first (.inl new)
  have apart : edge.target ≠ root := by
    rintro rfl
    exact new (Std.HashMap.getElem?_eq_some_iff.mp rootLinked).fst
  have rootEntered :
      (before.enter edge.target (frame.found edge).1).links[root]? = some .compile := by
    simp [Ledger.enter, Std.HashMap.getElem?_insert, apart, rootLinked]
  have entered : edge.target ∈ (before.enter edge.target (frame.found edge).1).links :=
    Std.HashMap.mem_insert_self
  have swept := inner.link_kept
    (fun _ given => permitted _ (Frame.mem_revisit_opened given)) rootEntered
  have rootMember := (Std.HashMap.getElem?_eq_some_iff.mp rootEntered).fst
  rw [rest.link_kept (fun _ given => permitted _ (Frame.mem_revisit_suspend given))
      ((swept root rootMember).trans rootEntered) edge.target (inner.mem_of_mem entered),
    swept edge.target entered]
  exact Std.HashMap.getElem?_insert_self

end Sweep

/-! ### The edges of the root -/

omit [BEq N] [Hashable N] in
/-- By precedence an export edge stands behind all compile edges and the export
edges before it. -/
theorem strongestFirst_reexport (front back : List (Edge N)) {edge : Edge N}
    (kind : edge.kind = .reexport) :
    strongestFirst (front ++ edge :: back) =
      ((front ++ back).filter (·.kind == .compile) ++ front.filter (·.kind == .reexport)) ++
        edge :: (back.filter (·.kind == .reexport) ++
          (front ++ back).filter (·.kind == .runtime)) := by
  simp [strongestFirst, kind]

/-- A front part of the root's edges owes no more than all of them. -/
theorem rootFrame_owed_front {front back : List (Edge N)}
    (parts : strongestFirst (graph.edges root) = front ++ back) :
    Frame.Owed graph root { rootFrame graph root with pending := front } := by
  refine (rootFrame_owed graph root).within (fun edge member => ?_) (some root)
  rw [rootFrame, parts]
  exact List.mem_append_left _ member

/-- Outside the reach of the compile edges only an export edge of the root links
its target by more than runtime. -/
theorem found_rootFrame (outside : ¬ graph.CompileReaches root unit) {pending : List (Edge N)}
    (given : ∀ edge ∈ pending, edge ∈ graph.edges root)
    (hidden : ∀ edge ∈ pending, edge.kind = .reexport → edge.target ≠ unit) :
    ∀ edge ∈ pending, edge.target = unit →
      ((rootFrame graph root).found edge).1 = .runtime := by
  rintro ⟨target, kind⟩ member rfl
  cases kind with
  | compile => exact absurd ⟨_, given _ member, rfl, .refl _⟩ outside
  | reexport => exact absurd rfl (hidden _ member rfl)
  | runtime => rfl

end Closure

namespace BuildGraph

open Closure

variable {root unit : N}

/-- Whether an export edge of `root` leads to `unit`, and no export edge before it
leads to a unit from which `unit` is reached past the root. -/
def ExportsFirst (graph : BuildGraph N) (root unit : N) : Prop :=
  ∃ front edge back, graph.edges root = front ++ edge :: back ∧
    edge.kind = .reexport ∧ edge.target = unit ∧
    ∀ earlier ∈ front, earlier.kind = .reexport →
      ¬ graph.ReachesAvoiding root earlier.target unit

/-- Among the export edges of the root to a unit one comes first. -/
theorem exists_first_reexport
    (direct : ∃ edge ∈ graph.edges root, edge.kind = .reexport ∧ edge.target = unit) :
    ∃ front edge back, graph.edges root = front ++ edge :: back ∧
      edge.kind = .reexport ∧ edge.target = unit ∧
      ∀ earlier ∈ front, earlier.kind = .reexport → earlier.target ≠ unit := by
  classical
  obtain ⟨edge, given, isDirect⟩ := direct
  have found : ((graph.edges root).find? fun edge =>
      edge.kind = .reexport ∧ edge.target = unit).isSome :=
    List.find?_isSome.mpr ⟨edge, given, decide_eq_true isDirect⟩
  obtain ⟨first, search⟩ := Option.isSome_iff_exists.mp found
  obtain ⟨isFirst, front, back, edges, notEarlier⟩ := List.find?_eq_some_iff_append.mp search
  obtain ⟨kind, target⟩ := of_decide_eq_true isFirst
  refine ⟨front, first, back, edges, kind, target, fun earlier member kind target => ?_⟩
  simpa [kind, target] using notEarlier earlier member

/-- An export edge to a unit comes first in this sense when no other export target
of the root leads to the unit. -/
theorem exportsFirst_of_direct
    (direct : ∃ edge ∈ graph.edges root, edge.kind = .reexport ∧ edge.target = unit)
    (apart : ∀ edge ∈ graph.edges root, edge.kind = .reexport → edge.target ≠ unit →
      ¬ graph.ReachesAvoiding root edge.target unit) :
    graph.ExportsFirst root unit := by
  obtain ⟨front, edge, back, edges, kind, target, others⟩ := exists_first_reexport direct
  refine ⟨front, edge, back, edges, kind, target, fun earlier member isExport => ?_⟩
  have given : earlier ∈ graph.edges root := edges ▸ List.mem_append_left _ member
  exact apart earlier given isExport (others earlier member isExport)

variable [LawfulBEq N]

/-- A unit that the root shows first is linked by export. -/
theorem getElem?_closure_of_exportsFirst (away : unit ≠ root)
    (outside : ¬ graph.CompileReaches root unit) (shown : graph.ExportsFirst root unit) :
    (graph.closure root)[unit]? = some .reexport := by
  obtain ⟨front, edge, back, edges, kind, rfl, unseen⟩ := shown
  have parts := (congrArg strongestFirst edges).trans (strongestFirst_reexport front back kind)
  obtain ⟨middle, revisit, permitted, first, second, rootLinked, _⟩ := exists_front_sweep parts
  have owed := rootFrame_owed_front parts
  have new : edge.target ∉ middle.links := by
    intro linked
    rcases first.reached_avoiding owed (mem_start_iff.mpr rfl) linked with
      old | behind | ⟨earlier, member, opens, reaches⟩
    · exact away (mem_start_iff.mp old)
    · exact outside behind
    · rcases List.mem_append.mp member with compile | exported
      · have isCompile := eq_of_beq (List.mem_filter.mp compile).2
        rw [Frame.found_snd_iff.mpr (.inr ⟨rfl, isCompile⟩)] at opens
        cases opens
      · obtain ⟨member, isExport⟩ := List.mem_filter.mp exported
        exact unseen earlier member (eq_of_beq isExport) reaches
  have link : (graph.closure root)[edge.target]? = some ((rootFrame graph root).found edge).1 :=
    second.link_of_first permitted rootLinked rfl new
  simpa [Frame.found, rootFrame, directLink, kind] using link

/-- Any other unit outside the reach of the compile edges gets no other link than
runtime. -/
theorem runtime_of_not_exportsFirst (away : unit ≠ root)
    (outside : ¬ graph.CompileReaches root unit) (hidden : ¬ graph.ExportsFirst root unit) :
    ∀ link ∈ (graph.closure root)[unit]?, link = .runtime := by
  have unlinked : ∀ link ∈ (State.start graph root).ledger.links[unit]?, link = .runtime :=
    fun link found =>
      absurd (mem_start_iff.mp (Std.HashMap.getElem?_eq_some_iff.mp found).fst) away
  by_cases direct : ∃ edge ∈ graph.edges root, edge.kind = .reexport ∧ edge.target = unit
  · -- The first export edge to the unit comes too late: the unit is linked below
    -- an export target before it.
    obtain ⟨front, edge, back, edges, kind, target, others⟩ := exists_first_reexport direct
    have late : ∃ earlier ∈ front, earlier.kind = .reexport ∧
        graph.ReachesAvoiding root earlier.target unit := by
      by_contra unseen
      refine hidden ⟨front, edge, back, edges, kind, target, ?_⟩
      exact fun earlier member isExport reaches => unseen ⟨earlier, member, isExport, reaches⟩
    obtain ⟨earlier, member, isExport, reaches⟩ := late
    have parts := (congrArg strongestFirst edges).trans
      (strongestFirst_reexport front back kind)
    obtain ⟨middle, _, _, first, _, _, kept⟩ := exists_front_sweep parts
    have owed := rootFrame_owed_front parts
    have linked : unit ∈ middle.links := by
      have pending : earlier ∈ (front ++ back).filter (·.kind == .compile) ++
          front.filter (·.kind == .reexport) :=
        List.mem_append_right _ (List.mem_filter.mpr ⟨member, beq_iff_eq.mpr isExport⟩)
      refine reaches.closed (fun other notRoot known => ?_) (first.target_mem pending)
      exact (first.closed known).resolve_left fun old => notRoot (mem_start_iff.mp old)
    rw [kept unit linked]
    refine first.runtime_kept owed outside (found_rootFrame outside (owed.first rfl) ?_) unlinked
    intro other member otherKind
    rcases List.mem_append.mp member with compile | exported
    · have isCompile := (List.mem_filter.mp compile).2
      rw [otherKind] at isCompile
      cases isCompile
    · exact others other (List.mem_filter.mp exported).1 otherKind
  · refine (sweep_closureWalk graph root).runtime_kept (rootFrame_owed graph root) outside
      (found_rootFrame outside (rootFrame_owed graph root |>.first rfl) ?_) unlinked
    intro edge member kind target
    exact direct ⟨edge, (strongestFirst_perm _).mem_iff.mp member, kind, target⟩

/-- Outside the reach of the root's compile edges, export is the link of the units
that the root shows first. -/
theorem getElem?_closure_eq_reexport_iff (away : unit ≠ root)
    (outside : ¬ graph.CompileReaches root unit) :
    (graph.closure root)[unit]? = some .reexport ↔ graph.ExportsFirst root unit := by
  refine ⟨fun link => ?_, getElem?_closure_of_exportsFirst away outside⟩
  by_contra hidden
  cases runtime_of_not_exportsFirst away outside hidden .reexport link

/-- Whatever else the root reaches outside the reach of its compile edges is linked
by runtime. -/
theorem getElem?_closure_eq_runtime_iff (away : unit ≠ root)
    (outside : ¬ graph.CompileReaches root unit) (reaches : graph.Reaches root unit) :
    (graph.closure root)[unit]? = some .runtime ↔ ¬ graph.ExportsFirst root unit := by
  constructor
  · intro link first
    rw [getElem?_closure_of_exportsFirst away outside first] at link
    cases link
  · intro hidden
    have linked := (graph.mem_closure_iff root unit).mpr reaches
    obtain ⟨link, found⟩ := Option.isSome_iff_exists.mp
      (Std.HashMap.isSome_getElem?_iff_mem.mpr linked)
    rw [found, runtime_of_not_exportsFirst away outside hidden link found]

/-- An export edge of the root to a unit outside the reach of its compile edges
gives the link if it comes before every export edge that also leads there past the
root; otherwise the unit is linked by runtime.  So the order of the root's edges
decides, unless the targets of the others do not lead there at all. -/
theorem closure_of_reexport_edge (away : unit ≠ root)
    (direct : ∃ edge ∈ graph.edges root, edge.kind = .reexport ∧ edge.target = unit)
    (outside : ¬ graph.CompileReaches root unit) :
    ((graph.closure root)[unit]? = some .reexport ↔ graph.ExportsFirst root unit) ∧
      ((graph.closure root)[unit]? = some .runtime ↔ ¬ graph.ExportsFirst root unit) ∧
      ((∀ edge ∈ graph.edges root, edge.kind = .reexport → edge.target ≠ unit →
          ¬ graph.ReachesAvoiding root edge.target unit) →
        (graph.closure root)[unit]? = some .reexport) := by
  have reaches : graph.Reaches root unit := by
    obtain ⟨edge, given, _, rfl⟩ := direct
    exact .of_mem given
  refine ⟨getElem?_closure_eq_reexport_iff away outside,
    getElem?_closure_eq_runtime_iff away outside reaches, fun apart => ?_⟩
  exact getElem?_closure_of_exportsFirst away outside (exportsFirst_of_direct direct apart)

/-- A graph in which `0` shows `1` and then `2`, which `1` needs at run time. -/
def showsBelow : BuildGraph Nat :=
  ofList [(0, [⟨1, .reexport⟩, ⟨2, .reexport⟩]), (1, [⟨2, .runtime⟩])]

/-- Unit `1` keeps the kind of the root's edge to it, for `2` does not lead there. -/
theorem closure_of_reexport_edge_showsBelow :
    (⟨1, .reexport⟩ : Edge Nat) ∈ showsBelow.edges 0 ∧ ¬ showsBelow.CompileReaches 0 1 ∧
      (showsBelow.closure 0)[1]? = some .reexport := by
  have given : (⟨1, .reexport⟩ : Edge Nat) ∈ showsBelow.edges 0 := by simp [showsBelow, ofList]
  have noCompile : ∀ unit, ∀ edge ∈ showsBelow.edges unit, edge.kind ≠ .compile :=
    forall_edges_ofList.mpr (by decide)
  have onlyRoot : ∀ unit, ∀ edge ∈ showsBelow.edges unit, edge.target = 1 → unit = 0 :=
    forall_edges_ofList.mpr (by decide)
  have outside : ¬ showsBelow.CompileReaches 0 1 := by
    rintro ⟨edge, given, kind, _⟩
    exact noCompile 0 edge given kind
  obtain ⟨_, _, kept⟩ := closure_of_reexport_edge (by decide) ⟨_, given, rfl, rfl⟩ outside
  have never : ∀ unit, unit ≠ 0 → unit ≠ 1 → ∀ edge ∈ showsBelow.edges unit, edge.target ≠ 1 :=
    fun unit away _ edge given target => away (onlyRoot unit edge given target)
  refine ⟨given, outside, kept fun edge _ _ other reaches => ?_⟩
  exact reaches.closed never other rfl

/-- Unit `2` does not: the walk meets it below `1` before it looks at the root's
edge to it. -/
theorem runtime_of_reexport_edge_showsBelow :
    (⟨2, .reexport⟩ : Edge Nat) ∈ showsBelow.edges 0 ∧ ¬ showsBelow.CompileReaches 0 2 ∧
      (showsBelow.closure 0)[2]? = some .runtime := by
  have edges : showsBelow.edges 0 = [⟨1, .reexport⟩, ⟨2, .reexport⟩] ∧
      showsBelow.edges 1 = [⟨2, .runtime⟩] := by
    simp [showsBelow, ofList]
  have noCompile : ∀ unit, ∀ edge ∈ showsBelow.edges unit, edge.kind ≠ .compile :=
    forall_edges_ofList.mpr (by decide)
  have outside : ¬ showsBelow.CompileReaches 0 2 := by
    rintro ⟨edge, given, kind, _⟩
    exact noCompile 0 edge given kind
  have given : (⟨2, .reexport⟩ : Edge Nat) ∈ showsBelow.edges 0 := by simp [edges]
  have needs : (⟨2, .runtime⟩ : Edge Nat) ∈ showsBelow.edges 1 := by simp [edges]
  have below : showsBelow.ReachesAvoiding 0 1 2 := .hop needs (by decide) (.refl (by decide))
  refine ⟨given, outside,
    (getElem?_closure_eq_runtime_iff (by decide) outside (.of_mem given)).mpr ?_⟩
  rintro ⟨front, edge, back, split, kind, target, unseen⟩
  rw [edges.1] at split
  cases front with
  | nil =>
      cases split
      cases target
  | cons first front =>
      obtain ⟨rfl, _⟩ := List.cons.inj split
      exact unseen _ List.mem_cons_self rfl below

end BuildGraph

end BuildImpact
