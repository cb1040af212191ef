/-
Module: BuildImpact.Proofs.Closure.Compile
Layer: Proofs
Purpose: The exact domain of a closure and the exact part of it that is linked by
  compile.  A sweep links what its pending edges reach and nothing else; compile links
  are given only behind compile edges of the root, and the frames that give nothing
  else cover everything behind those edges, the root's own reach included as soon as a
  chain leads back to it.
Imports: BuildImpact.Proofs.Closure.Sweep, BuildImpact.Proofs.Graph.Walk
Trusted boundary: none
Main exports: BuildGraph.CompileReaches, Closure.Ledger.mem_enter,
  Closure.Sweep.exists_entered, Closure.Sweep.target_mem, Closure.Sweep.closed,
  Closure.Sweep.closed_of_expanded, Closure.Sweep.reached, Closure.Sweep.compile_sound,
  Closure.Sweep.link_kept, Closure.Sweep.reopened, Closure.Sweep.split,
  BuildGraph.closure_domain_and_compile
Open obligations: none
-/
import BuildImpact.Proofs.Closure.Sweep
import BuildImpact.Proofs.Graph.Walk

namespace BuildImpact

variable {N : Type} [BEq N] [Hashable N] {graph : BuildGraph N}

namespace BuildGraph

/-- Whether a compile edge of `root` leads to a unit from which `unit` is reached. -/
def CompileReaches (graph : BuildGraph N) (root unit : N) : Prop :=
  ∃ edge ∈ graph.edges root, edge.kind = .compile ∧ graph.Reaches edge.target unit

/-- What is reached from behind a compile edge is behind it, too. -/
theorem CompileReaches.trans {root unit target : N} (behind : graph.CompileReaches root unit)
    (onward : graph.Reaches unit target) : graph.CompileReaches root target := by
  obtain ⟨edge, given, kind, reaches⟩ := behind
  exact ⟨edge, given, kind, reaches.trans onward⟩

end BuildGraph

namespace Closure

variable {root : N}

/-! ### The links that a frame gives -/

namespace Frame

omit [BEq N] [Hashable N] in
/-- A target is opened into a chain inside a chain and behind compile edges of
the root, and nowhere else. -/
theorem found_snd_iff {frame : Frame N} {edge : Edge N} :
    (frame.found edge).2 = true ↔
      frame.inChain = true ∨ (frame.isFirst = true ∧ edge.kind = .compile) := by
  obtain ⟨pending, isFirst, inChain, revisit⟩ := frame
  obtain ⟨target, kind⟩ := edge
  cases inChain <;> cases isFirst <;> cases kind <;> simp [found, directLink]

omit [BEq N] [Hashable N] in
/-- The targets opened into a chain are those that are linked by compile. -/
theorem found_fst_iff {frame : Frame N} {edge : Edge N} :
    (frame.found edge).1 = .compile ↔ (frame.found edge).2 = true := by
  obtain ⟨pending, isFirst, inChain, revisit⟩ := frame
  obtain ⟨target, kind⟩ := edge
  cases inChain <;> cases isFirst <;> cases kind <;> simp [found, directLink]

omit [Hashable N] in
/-- A frame with a permission uses it as soon as an edge opens the root into a
chain. -/
theorem revisits_iff [LawfulBEq N] {frame : Frame N} {edge : Edge N} :
    frame.revisits edge = true ↔
      frame.revisit = some edge.target ∧ (frame.found edge).2 = true := by
  rw [found_snd_iff, revisits, Bool.and_eq_true, beq_iff_eq, Bool.or_eq_true, Bool.and_eq_true,
    beq_iff_eq]

end Frame

/-! ### What a sweep reaches -/

/-- Entering a unit links it besides what is linked. -/
theorem Ledger.mem_enter [LawfulBEq N] {ledger : Ledger N} {unit other : N} {link : Linkage} :
    other ∈ (ledger.enter unit link).links ↔ unit = other ∨ other ∈ ledger.links := by
  rw [enter, Std.HashMap.mem_insert, beq_iff_eq]

namespace Sweep

variable [LawfulBEq N] {frame : Frame N} {before after : Ledger N}

theorem mem_of_mem (sweep : Sweep graph frame before after) {unit : N}
    (linked : unit ∈ before.links) : unit ∈ after.links := by
  induction sweep with
  | leave => exact linked
  | pass _ _ _ _ inductionHypothesis => exact inductionHypothesis linked
  | enter _ _ _ _ innerHypothesis restHypothesis =>
      exact restHypothesis (innerHypothesis (Ledger.mem_enter.mpr (.inr linked)))

omit [LawfulBEq N] in
/-- A sweep adds to the expansions and forgets none. -/
theorem expansions_suffix (sweep : Sweep graph frame before after) :
    before.expansions <:+ after.expansions := by
  induction sweep with
  | leave => exact List.suffix_rfl
  | pass _ _ _ _ inductionHypothesis => exact inductionHypothesis
  | enter _ _ _ _ innerHypothesis restHypothesis =>
      exact (List.suffix_cons _ _).trans (innerHypothesis.trans restHypothesis)

omit [LawfulBEq N] in
theorem count_le (sweep : Sweep graph frame before after) (unit : N) :
    before.expansions.count unit ≤ after.expansions.count unit :=
  sweep.expansions_suffix.sublist.count_le unit

/-- A unit that is entered has one expansion more at the end of the sweep. -/
theorem count_lt_of_entered {inward onward : Frame N} {middle : Ledger N} {unit : N}
    {link : Linkage} (inner : Sweep graph inward (before.enter unit link) middle)
    (rest : Sweep graph onward middle after) :
    before.expansions.count unit < after.expansions.count unit :=
  calc before.expansions.count unit
      < (before.enter unit link).expansions.count unit := by simp [Ledger.enter]
    _ ≤ middle.expansions.count unit := inner.count_le unit
    _ ≤ after.expansions.count unit := rest.count_le unit

omit [LawfulBEq N] in
/-- A first edge that is not passed over has its target swept before the rest. -/
theorem exists_entered (sweep : Sweep graph frame before after) {edge : Edge N}
    {pending : List (Edge N)} (first : frame.pending = edge :: pending)
    (due : edge.target ∉ before.links ∨ frame.revisits edge = true) :
    ∃ middle, Sweep graph (frame.opened graph edge)
        (before.enter edge.target (frame.found edge).1) middle ∧
      Sweep graph (frame.suspend edge pending) middle after := by
  cases sweep with
  | leave _ finished => cases first.symm.trans finished
  | pass next linked once =>
      cases first.symm.trans next
      rcases due with new | again
      · exact absurd linked new
      · rw [once] at again
        cases again
  | enter next _ inner rest =>
      cases first.symm.trans next
      exact ⟨_, inner, rest⟩

/-- Every pending edge has its target linked. -/
theorem target_mem (sweep : Sweep graph frame before after) {edge : Edge N}
    (pending : edge ∈ frame.pending) : edge.target ∈ after.links := by
  induction sweep with
  | leave _ finished =>
      rw [finished] at pending
      cases pending
  | pass next linked _ rest inductionHypothesis =>
      rw [next] at pending
      rcases List.mem_cons.mp pending with rfl | later
      · exact rest.mem_of_mem linked
      · exact inductionHypothesis later
  | enter next _ inner rest _ restHypothesis =>
      rw [next] at pending
      rcases List.mem_cons.mp pending with rfl | later
      · exact rest.mem_of_mem (inner.mem_of_mem Std.HashMap.mem_insert_self)
      · exact restHypothesis later

/-- A unit that a sweep links has the targets of all its edges linked. -/
theorem closed (sweep : Sweep graph frame before after) {unit : N}
    (linked : unit ∈ after.links) :
    unit ∈ before.links ∨ ∀ edge ∈ graph.edges unit, edge.target ∈ after.links := by
  induction sweep with
  | leave => exact .inl linked
  | pass _ _ _ _ inductionHypothesis => exact inductionHypothesis linked
  | @enter _ opening _ _ _ _ _ _ inner rest innerHypothesis restHypothesis =>
      rcases restHypothesis linked with entered | closed
      · rcases innerHypothesis entered with old | closed
        · rcases Ledger.mem_enter.mp old with rfl | old
          · refine .inr fun edge given => rest.mem_of_mem (inner.target_mem ?_)
            exact (strongestFirst_perm _).mem_iff.mpr given
          · exact .inl old
        · exact .inr fun edge given => rest.mem_of_mem (closed edge given)
      · exact .inr closed

/-- A unit that a sweep expands has the targets of all its edges linked, also if it
was linked before. -/
theorem closed_of_expanded (sweep : Sweep graph frame before after) {unit : N}
    (expanded : before.expansions.count unit < after.expansions.count unit) :
    ∀ edge ∈ graph.edges unit, edge.target ∈ after.links := by
  induction sweep with
  | leave => exact absurd expanded (Nat.lt_irrefl _)
  | pass _ _ _ _ inductionHypothesis => exact inductionHypothesis expanded
  | @enter _ opening _ before middle after _ _ inner rest innerHypothesis restHypothesis =>
      by_cases later : middle.expansions.count unit < after.expansions.count unit
      · exact restHypothesis later
      · intro edge given
        apply rest.mem_of_mem
        by_cases isTarget : opening.target = unit
        · subst isTarget
          exact inner.target_mem ((strongestFirst_perm _).mem_iff.mpr given)
        · refine innerHypothesis ?_ edge given
          rw [Ledger.enter, List.count_cons_of_ne isTarget]
          omega

/-- A sweep links only what its pending edges reach. -/
theorem reached (sweep : Sweep graph frame before after) {unit : N}
    (linked : unit ∈ after.links) :
    unit ∈ before.links ∨ ∃ edge ∈ frame.pending, graph.Reaches edge.target unit := by
  induction sweep with
  | leave => exact .inl linked
  | pass next _ _ _ inductionHypothesis =>
      apply (inductionHypothesis linked).imp_right
      rintro ⟨edge, later, reaches⟩
      exact ⟨edge, next ▸ List.mem_cons_of_mem _ later, reaches⟩
  | @enter _ opening _ _ _ _ next _ _ _ innerHypothesis restHypothesis =>
      rcases restHypothesis linked with entered | ⟨edge, later, reaches⟩
      · rcases innerHypothesis entered with old | ⟨edge, given, reaches⟩
        · rcases Ledger.mem_enter.mp old with rfl | old
          · exact .inr ⟨opening, next ▸ List.mem_cons_self, .refl _⟩
          · exact .inl old
        · have given := (strongestFirst_perm _).mem_iff.mp given
          have onward := (BuildGraph.Reaches.of_mem given).trans reaches
          exact .inr ⟨opening, next ▸ List.mem_cons_self, onward⟩
      · exact .inr ⟨edge, next ▸ List.mem_cons_of_mem _ later, reaches⟩

end Sweep

/-! ### What is linked by compile -/

/-- What a frame owes to the root: its pending edges are the root's own, or lead
behind compile edges of the root once a chain has begun. -/
structure Frame.Owed (graph : BuildGraph N) (root : N) (frame : Frame N) : Prop where
  first : frame.isFirst = true → ∀ edge ∈ frame.pending, edge ∈ graph.edges root
  chain : frame.inChain = true → ∀ edge ∈ frame.pending, graph.CompileReaches root edge.target

namespace Frame

/-- What is opened into a chain lies behind a compile edge of the root. -/
theorem Owed.compileReaches {frame : Frame N} {edge : Edge N} (owed : Owed graph root frame)
    (pending : edge ∈ frame.pending) (opened : (frame.found edge).2 = true) :
    graph.CompileReaches root edge.target := by
  rcases found_snd_iff.mp opened with inChain | ⟨isFirst, kind⟩
  · exact owed.chain inChain edge pending
  · exact ⟨edge, owed.first isFirst edge pending, kind, .refl _⟩

theorem Owed.opened {frame : Frame N} {edge : Edge N} (owed : Owed graph root frame)
    (pending : edge ∈ frame.pending) : Owed graph root (frame.opened graph edge) where
  first isFirst := by cases isFirst
  chain inChain given member :=
    (owed.compileReaches pending inChain).trans
      (.of_mem ((strongestFirst_perm _).mem_iff.mp member))

/-- A frame with fewer edges owes no more. -/
theorem Owed.within {frame : Frame N} {pending : List (Edge N)} (owed : Owed graph root frame)
    (given : ∀ edge ∈ pending, edge ∈ frame.pending) (revisit : Option N) :
    Owed graph root { frame with pending, revisit } where
  first isFirst edge member := owed.first isFirst edge (given edge member)
  chain inChain edge member := owed.chain inChain edge (given edge member)

theorem Owed.rest {frame : Frame N} {edge : Edge N} {pending : List (Edge N)}
    (owed : Owed graph root frame) (next : frame.pending = edge :: pending)
    (revisit : Option N) : Owed graph root { frame with pending, revisit } :=
  owed.within (fun _ member => next ▸ List.mem_cons_of_mem _ member) revisit

/-- A permission that an edge does not use stays with the frame, and goes with
what the edge opens into a chain. -/
theorem permission_kept [LawfulBEq N] (graph : BuildGraph N) {frame : Frame N} {edge : Edge N}
    (pending : List (Edge N)) (permitted : frame.revisit = some root)
    (other : edge.target ≠ root) (inChain : (frame.found edge).2 = true) :
    (frame.suspend edge pending).revisit = some root ∧
      (frame.opened graph edge).revisit = some root := by
  have once : frame.revisits edge = false := by
    rw [← Bool.not_eq_true, revisits_iff]
    rintro ⟨permission, _⟩
    exact other (Option.some.inj (permission.symm.trans permitted))
  constructor
  · simp [suspend, once, permitted]
  · simp [opened, suspend, once, permitted, inChain]

/-- Whether every pending edge opens its target into a chain. -/
def Compiling (frame : Frame N) : Prop :=
  ∀ edge ∈ frame.pending, (frame.found edge).2 = true

omit [BEq N] [Hashable N] in
theorem Compiling.head {frame : Frame N} {edge : Edge N} {pending : List (Edge N)}
    (compiling : Compiling frame) (next : frame.pending = edge :: pending) :
    (frame.found edge).2 = true :=
  compiling edge (next ▸ List.mem_cons_self)

theorem Compiling.opened {frame : Frame N} {edge : Edge N}
    (inChain : (frame.found edge).2 = true) : Compiling (frame.opened graph edge) :=
  fun _ _ => found_snd_iff.mpr (.inl inChain)

omit [BEq N] [Hashable N] in
theorem Compiling.rest {frame : Frame N} {edge : Edge N} {pending : List (Edge N)}
    (compiling : Compiling frame) (next : frame.pending = edge :: pending)
    (revisit : Option N) : Compiling { frame with pending, revisit } :=
  fun given member => compiling given (next ▸ List.mem_cons_of_mem _ member)

end Frame

namespace Sweep

variable [LawfulBEq N] {frame : Frame N} {before after : Ledger N}

/-- Compile links are given only behind compile edges of the root. -/
theorem compile_sound (sweep : Sweep graph frame before after) (owed : frame.Owed graph root)
    {unit : N} (compiled : after.links[unit]? = some .compile) :
    before.links[unit]? = some .compile ∨ graph.CompileReaches root unit := by
  induction sweep with
  | leave => exact .inl compiled
  | pass next _ _ _ inductionHypothesis =>
      exact inductionHypothesis (owed.rest next _) compiled
  | @enter frame opening pending before middle after next due _ _ innerHypothesis
      restHypothesis =>
      have isPending : opening ∈ frame.pending := next ▸ List.mem_cons_self
      rcases restHypothesis (owed.rest next _) compiled with entered | behind
      · rcases innerHypothesis (owed.opened isPending) entered with linked | behind
        · simp only [Ledger.enter, Std.HashMap.getElem?_insert] at linked
          split at linked
          · rename_i isTarget
            rw [← eq_of_beq isTarget]
            exact .inr (owed.compileReaches isPending
              (Frame.found_fst_iff.mp (Option.some.inj linked)))
          · exact .inl linked
        · exact .inr behind
      · exact .inr behind

/-- A unit keeps the link it has; the root is only ever linked by compile again. -/
theorem link_kept (sweep : Sweep graph frame before after)
    (permitted : ∀ unit ∈ frame.revisit, unit = root)
    (rootLinked : before.links[root]? = some .compile) :
    ∀ unit ∈ before.links, after.links[unit]? = before.links[unit]? := by
  induction sweep with
  | leave => exact fun _ _ => rfl
  | pass _ _ _ _ inductionHypothesis => exact inductionHypothesis permitted rootLinked
  | @enter frame opening pending before middle after next due inner _ innerHypothesis
      restHypothesis =>
      have entered : ∀ unit ∈ before.links,
          (before.enter opening.target (frame.found opening).1).links[unit]? =
            before.links[unit]? := by
        intro unit linked
        simp only [Ledger.enter, Std.HashMap.getElem?_insert]
        split
        · rename_i isTarget
          cases eq_of_beq isTarget
          have again := due.resolve_left (not_not.mpr linked)
          obtain ⟨permission, opened⟩ := Frame.revisits_iff.mp again
          rw [permitted _ permission, rootLinked, Frame.found_fst_iff.mpr opened]
        · rfl
      have rootMember : root ∈ before.links :=
        (Std.HashMap.getElem?_eq_some_iff.mp rootLinked).fst
      have swept : ∀ unit ∈ before.links, middle.links[unit]? = before.links[unit]? := by
        intro unit linked
        rw [← entered unit linked]
        exact innerHypothesis (fun _ given => permitted _ (Frame.mem_revisit_opened given))
          ((entered root rootMember).trans rootLinked) unit
          (Ledger.mem_enter.mpr (.inr linked))
      intro unit linked
      rw [← swept unit linked]
      exact restHypothesis (fun _ given => permitted _ (Frame.mem_revisit_suspend given))
        ((swept root rootMember).trans rootLinked) unit
        (inner.mem_of_mem (Ledger.mem_enter.mpr (.inr linked)))

/-- While every edge opens its target into a chain, every link is by compile. -/
theorem link_of_compiling (sweep : Sweep graph frame before after)
    (compiling : frame.Compiling)
    (compiled : ∀ unit ∈ before.links, before.links[unit]? = some .compile) :
    ∀ unit ∈ after.links, after.links[unit]? = some .compile := by
  induction sweep with
  | leave => exact compiled
  | pass next _ _ _ inductionHypothesis =>
      exact inductionHypothesis (compiling.rest next _) compiled
  | @enter frame opening pending before middle after next _ _ _ innerHypothesis restHypothesis =>
      have inChain := compiling.head next
      refine restHypothesis (compiling.rest next _) (innerHypothesis (.opened inChain) ?_)
      intro unit linked
      simp only [Ledger.enter, Std.HashMap.getElem?_insert]
      split
      · rw [Frame.found_fst_iff.mpr inChain]
      · rename_i isOther
        exact compiled unit ((Std.HashMap.mem_insert.mp linked).resolve_left isOther)

/-- A chain that leads back to the root while the permission to expand it again
is held expands it. -/
theorem reopened (sweep : Sweep graph frame before after) (compiling : frame.Compiling)
    (permitted : frame.revisit = some root)
    (back : (∃ edge ∈ frame.pending, edge.target = root) ∨
      ∃ unit ∈ after.links, unit ∉ before.links ∧ ∃ edge ∈ graph.edges unit, edge.target = root) :
    before.expansions.count root < after.expansions.count root := by
  induction sweep with
  | leave _ finished =>
      rcases back with ⟨edge, pending, _⟩ | ⟨unit, linked, new, _⟩
      · rw [finished] at pending
        cases pending
      · exact absurd linked new
  | @pass frame edge pending before after next linked once rest inductionHypothesis =>
      apply inductionHypothesis (compiling.rest next _) permitted
      apply back.imp_left
      rintro ⟨given, member, toRoot⟩
      rw [next] at member
      rcases List.mem_cons.mp member with rfl | later
      · have again : frame.revisits given = true :=
          Frame.revisits_iff.mpr ⟨toRoot ▸ permitted, compiling.head next⟩
        rw [once] at again
        cases again
      · exact ⟨given, later, toRoot⟩
  | @enter frame opening pending before middle after next due inner rest innerHypothesis
      restHypothesis =>
      by_cases toRoot : opening.target = root
      · exact toRoot ▸ count_lt_of_entered inner rest
      · have inChain := compiling.head next
        obtain ⟨kept, inherited⟩ :=
          Frame.permission_kept graph pending permitted toRoot inChain
        have entered : before.expansions.count root ≤
            (before.enter opening.target (frame.found opening).1).expansions.count root :=
          (List.sublist_cons_self _ _).count_le root
        have outward := fun back => (entered.trans (inner.count_le root)).trans_lt
          (restHypothesis (compiling.rest next _) kept back)
        have inward := fun back => entered.trans_lt
          ((innerHypothesis (.opened inChain) inherited back).trans_le (rest.count_le root))
        rcases back with ⟨edge, member, isRoot⟩ | ⟨unit, linked, new, edge, given, isRoot⟩
        · rw [next] at member
          rcases List.mem_cons.mp member with rfl | later
          · exact absurd isRoot toRoot
          · exact outward (.inl ⟨edge, later, isRoot⟩)
        · by_cases isSwept : unit ∈ middle.links
          · by_cases isTarget : opening.target = unit
            · subst isTarget
              exact inward (.inl ⟨edge, (strongestFirst_perm _).mem_iff.mpr given, isRoot⟩)
            · exact inward (.inr ⟨unit, isSwept,
                fun known => (Ledger.mem_enter.mp known).elim isTarget new, edge, given, isRoot⟩)
          · exact outward (.inr ⟨unit, linked, isSwept, edge, given, isRoot⟩)

omit [LawfulBEq N] in
/-- The pending edges are worked off in order: a sweep of the front part comes
first, and the frame may have used its permission there. -/
theorem split (sweep : Sweep graph frame before after) {front back : List (Edge N)}
    (parts : frame.pending = front ++ back) :
    ∃ middle revisit, (∀ unit ∈ revisit, unit ∈ frame.revisit) ∧
      Sweep graph { frame with pending := front } before middle ∧
      Sweep graph { frame with pending := back, revisit } middle after := by
  induction sweep generalizing front with
  | @leave frame ledger finished =>
      have empty := List.append_eq_nil_iff.mp (parts.symm.trans finished)
      exact ⟨ledger, frame.revisit, fun _ => id, .leave ledger empty.1, .leave ledger empty.2⟩
  | @pass frame edge pending before after next linked once rest inductionHypothesis =>
      cases front with
      | nil =>
          refine ⟨before, frame.revisit, fun _ => id, .leave before rfl, ?_⟩
          rw [List.nil_append] at parts
          exact .pass (parts.symm.trans next) linked once rest
      | cons given front =>
          obtain ⟨rfl, parts⟩ := List.cons.inj (parts.symm.trans next)
          obtain ⟨middle, revisit, kept, first, second⟩ := inductionHypothesis parts.symm
          exact ⟨middle, revisit, kept, .pass rfl linked once first, second⟩
  | @enter frame edge pending before entered after next due inner rest _ restHypothesis =>
      cases front with
      | nil =>
          refine ⟨before, frame.revisit, fun _ => id, .leave before rfl, ?_⟩
          rw [List.nil_append] at parts
          exact .enter (parts.symm.trans next) due inner rest
      | cons given front =>
          obtain ⟨rfl, parts⟩ := List.cons.inj (parts.symm.trans next)
          obtain ⟨middle, revisit, kept, first, second⟩ := restHypothesis parts.symm
          exact ⟨middle, revisit, fun unit member => Frame.mem_revisit_suspend (kept unit member),
            .enter rfl due inner first, second⟩

end Sweep

/-! ### The bucket of compile edges -/

/-- The frame of the root with the compile edges alone. -/
def compileFrame (graph : BuildGraph N) (root : N) : Frame N :=
  { rootFrame graph root with pending := (graph.edges root).filter (·.kind == .compile) }

/-- The compile edges of the root are looked at first. -/
theorem compileFrame_first (graph : BuildGraph N) (root : N) :
    strongestFirst (graph.edges root) = (compileFrame graph root).pending ++
      ((graph.edges root).filter (·.kind == .reexport) ++
        (graph.edges root).filter (·.kind == .runtime)) :=
  List.append_assoc _ _ _

theorem compileFrame_compiling (graph : BuildGraph N) (root : N) :
    (compileFrame graph root).Compiling := by
  intro edge member
  have kind := (List.mem_filter.mp member).2
  exact Frame.found_snd_iff.mpr (.inr ⟨rfl, eq_of_beq kind⟩)

theorem rootFrame_owed (graph : BuildGraph N) (root : N) :
    (rootFrame graph root).Owed graph root where
  first _ edge member := (strongestFirst_perm _).mem_iff.mp member
  chain inChain := by cases inChain

variable [LawfulBEq N]

/-- At the start of a walk the root alone is linked. -/
theorem mem_start_iff {unit : N} :
    unit ∈ (State.start graph root).ledger.links ↔ unit = root := by
  rw [State.ledger, State.start, Std.HashMap.mem_insert, beq_iff_eq, eq_comm]
  exact or_iff_left Std.HashMap.not_mem_emptyWithCapacity

theorem getElem?_start :
    (State.start graph root).ledger.links[root]? = some .compile := by
  simp [State.start, State.ledger]

/-- The walk sweeps any front part of the root's edges first, and the rest of it
leaves the links of that sweep alone. -/
theorem exists_front_sweep {front back : List (Edge N)}
    (parts : strongestFirst (graph.edges root) = front ++ back) :
    ∃ middle revisit, (∀ unit ∈ revisit, unit = root) ∧
      Sweep graph { rootFrame graph root with pending := front }
        (State.start graph root).ledger middle ∧
      Sweep graph { rootFrame graph root with pending := back, revisit } middle
        (graph.closureWalk root).ledger ∧
      middle.links[root]? = some .compile ∧
      ∀ unit ∈ middle.links, (graph.closure root)[unit]? = middle.links[unit]? := by
  obtain ⟨middle, revisit, kept, first, second⟩ := (sweep_closureWalk graph root).split parts
  have permitted : ∀ unit ∈ (rootFrame graph root).revisit, unit = root := by
    rintro unit ⟨⟩
    rfl
  have rootLinked : middle.links[root]? = some .compile := by
    rw [first.link_kept permitted getElem?_start root (mem_start_iff.mpr rfl), getElem?_start]
  have keptPermitted := fun unit member => permitted unit (kept unit member)
  exact ⟨middle, revisit, keptPermitted, first, second, rootLinked,
    second.link_kept keptPermitted rootLinked⟩

/-- The walk begins with a sweep of the compile edges; the rest of it leaves
the links of that sweep alone. -/
theorem exists_compile_sweep (graph : BuildGraph N) (root : N) :
    ∃ middle, Sweep graph (compileFrame graph root) (State.start graph root).ledger middle ∧
      ∀ unit ∈ middle.links, (graph.closure root)[unit]? = middle.links[unit]? := by
  obtain ⟨middle, _, _, first, _, _, kept⟩ := exists_front_sweep (compileFrame_first graph root)
  exact ⟨middle, first, kept⟩

/-- A linked unit has its edges looked at in a chain, but for the root, whose
edges are looked at in a chain only once a chain has led back to it. -/
def Settled (graph : BuildGraph N) (root : N) (ledger : Ledger N) (unit : N) : Prop :=
  unit ∈ ledger.links ∧ (unit = root → ∀ edge ∈ graph.edges root, edge.target ∈ ledger.links)

/-- The sweep of the compile edges links everything behind them. -/
theorem mem_of_compileReaches {middle : Ledger N}
    (sweep : Sweep graph (compileFrame graph root) (State.start graph root).ledger middle)
    {unit : N} (behind : graph.CompileReaches root unit) : unit ∈ middle.links := by
  have reopened := fun back =>
    sweep.closed_of_expanded (sweep.reopened (compileFrame_compiling graph root) rfl back)
  have step : ∀ unit, Settled graph root middle unit →
      ∀ edge ∈ graph.edges unit, Settled graph root middle edge.target := by
    rintro unit ⟨linked, opened⟩ edge given
    by_cases isRoot : unit = root
    · exact ⟨opened isRoot edge (isRoot ▸ given), fun _ => opened isRoot⟩
    · have new : unit ∉ (State.start graph root).ledger.links := fun old =>
        isRoot (mem_start_iff.mp old)
      refine ⟨(sweep.closed linked).resolve_left new edge given, fun toRoot => ?_⟩
      exact reopened (.inr ⟨unit, linked, new, edge, given, toRoot⟩)
  obtain ⟨edge, given, kind, reaches⟩ := behind
  have pending : edge ∈ (compileFrame graph root).pending :=
    List.mem_filter.mpr ⟨given, beq_iff_eq.mpr kind⟩
  have start : Settled graph root middle edge.target :=
    ⟨sweep.target_mem pending, fun toRoot => reopened (.inl ⟨edge, pending, toRoot⟩)⟩
  exact (reaches.closed step start).1

end Closure

namespace BuildGraph

variable [LawfulBEq N]

open Closure

/-- The closure holds what the root reaches. -/
theorem mem_closure_iff (graph : BuildGraph N) (root unit : N) :
    unit ∈ graph.closure root ↔ graph.Reaches root unit := by
  have sweep := sweep_closureWalk graph root
  have pending : ∀ edge, edge ∈ (rootFrame graph root).pending ↔ edge ∈ graph.edges root :=
    fun _ => (strongestFirst_perm _).mem_iff
  constructor
  · intro linked
    rcases sweep.reached linked with old | ⟨edge, member, reaches⟩
    · rw [mem_start_iff.mp old]
      exact .refl root
    · exact (Reaches.of_mem ((pending edge).mp member)).trans reaches
  · intro reaches
    have rootLinked := sweep.mem_of_mem (mem_start_iff.mpr rfl)
    refine reaches.closed (fun unit linked edge given => ?_) rootLinked
    rcases sweep.closed linked with old | closed
    · cases mem_start_iff.mp old
      exact sweep.target_mem ((pending edge).mpr given)
    · exact closed edge given

/-- The units linked by compile are the root and what lies behind its compile
edges. -/
theorem getElem?_closure_eq_compile_iff (graph : BuildGraph N) (root unit : N) :
    (graph.closure root)[unit]? = some .compile ↔
      unit = root ∨ graph.CompileReaches root unit := by
  obtain ⟨middle, sweep, kept⟩ := exists_compile_sweep graph root
  have compiled : ∀ unit ∈ middle.links, (graph.closure root)[unit]? = some .compile := by
    intro unit linked
    rw [kept unit linked]
    refine sweep.link_of_compiling (compileFrame_compiling graph root) ?_ unit linked
    intro unit old
    rw [mem_start_iff.mp old, getElem?_start]
  constructor
  · intro link
    rcases (sweep_closureWalk graph root).compile_sound (rootFrame_owed graph root) link with
      old | behind
    · have linked : unit ∈ (State.start graph root).ledger.links :=
        (Std.HashMap.getElem?_eq_some_iff.mp old).fst
      exact .inl (mem_start_iff.mp linked)
    · exact .inr behind
  · rintro (rfl | behind)
    · exact compiled unit (sweep.mem_of_mem (mem_start_iff.mpr rfl))
    · exact compiled unit (mem_of_compileReaches sweep behind)

/-- The closure holds exactly the reachable units, and links by compile exactly
the root and the units behind its compile edges; a root behind one of its own
compile edges takes everything it reaches with it. -/
theorem closure_domain_and_compile (graph : BuildGraph N) (root : N) :
    (∀ unit, unit ∈ graph.closure root ↔ graph.Reaches root unit) ∧
      (∀ unit, (graph.closure root)[unit]? = some .compile ↔
        unit = root ∨
          ∃ edge ∈ graph.edges root, edge.kind = .compile ∧ graph.Reaches edge.target unit) ∧
      ((∃ edge ∈ graph.edges root, edge.kind = .compile ∧ graph.Reaches edge.target root) →
        ∀ unit, graph.Reaches root unit → (graph.closure root)[unit]? = some .compile) := by
  refine ⟨graph.mem_closure_iff root, graph.getElem?_closure_eq_compile_iff root, ?_⟩
  intro back unit reaches
  have behind : graph.CompileReaches root root := back
  exact (graph.getElem?_closure_eq_compile_iff root unit).mpr (.inr (behind.trans reaches))

/-- A graph in which the compile dependency `1` of `0` needs `0` at run time. -/
def chainBack : BuildGraph Nat :=
  ofList [(0, [⟨2, .runtime⟩, ⟨1, .compile⟩]), (1, [⟨0, .runtime⟩])]

/-- The chain leads back to the root, whose runtime dependency `2` is a compile
dependency by that. -/
theorem closure_domain_and_compile_chainBack :
    (∃ edge ∈ chainBack.edges 0, edge.kind = .compile ∧ chainBack.Reaches edge.target 0) ∧
      chainBack.Reaches 0 2 ∧ (chainBack.closure 0)[2]? = some .compile := by
  have edges : chainBack.edges 0 = [⟨2, .runtime⟩, ⟨1, .compile⟩] ∧
      chainBack.edges 1 = [⟨0, .runtime⟩] := by
    simp [chainBack, ofList]
  have needs : (⟨2, .runtime⟩ : Edge Nat) ∈ chainBack.edges 0 := by simp [edges]
  have needed : (⟨0, .runtime⟩ : Edge Nat) ∈ chainBack.edges 1 := by simp [edges]
  have back : ∃ edge ∈ chainBack.edges 0, edge.kind = .compile ∧
      chainBack.Reaches edge.target 0 :=
    ⟨⟨1, .compile⟩, by simp [edges], rfl, .of_mem needed⟩
  obtain ⟨_, _, escalated⟩ := closure_domain_and_compile chainBack 0
  exact ⟨back, .of_mem needs, escalated back 2 (.of_mem needs)⟩

end BuildGraph

end BuildImpact
