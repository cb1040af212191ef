/-
Module: BuildImpact.Proofs.Closure.Sweep
Layer: Proofs
Purpose: The closure walk, frame by frame.  `Sweep` says what the pending edges of one
  frame make of the links found before, with everything that is opened on the way.
  Each step of the run is one of three looks at an edge, every look lowers a potential
  that starts below the budget, and so the finished walk is a sweep of the root's frame.
Imports: Mathlib.Tactic.Ring, BuildImpact.Graph.Closure, BuildImpact.Proofs.Graph.Edges,
  BuildImpact.Proofs.Graph.Search
Trusted boundary: none
Main exports: Closure.strongestFirst_perm, Closure.Ledger, Closure.Frame.found,
  Closure.Frame.suspend, Closure.Frame.opened, Closure.Sweep, Closure.potential,
  Closure.sweep_closureWalk
Open obligations: none
-/
import Mathlib.Tactic.Ring
import BuildImpact.Graph.Closure
import BuildImpact.Proofs.Graph.Edges
import BuildImpact.Proofs.Graph.Search

namespace BuildImpact

variable {N : Type} [BEq N] [Hashable N] {graph : BuildGraph N}

namespace Closure

omit [BEq N] [Hashable N] in
/-- Taking edges by precedence neither loses nor repeats one. -/
theorem strongestFirst_perm (edges : List (Edge N)) : (strongestFirst edges).Perm edges := by
  induction edges with
  | nil => exact .nil
  | cons edge edges inductionHypothesis =>
      obtain ⟨target, kind⟩ := edge
      cases kind with
      | compile => exact inductionHypothesis.cons _
      | reexport =>
          refine List.Perm.trans ?_ (inductionHypothesis.cons _)
          simp only [strongestFirst, List.append_assoc]
          exact List.perm_middle
      | runtime =>
          refine List.Perm.trans ?_ (inductionHypothesis.cons _)
          simp only [strongestFirst]
          exact List.perm_middle

/-! ### What a frame does with an edge -/

/-- The links found and the units expanded, the latest first. -/
structure Ledger (N : Type) [BEq N] [Hashable N] where
  links : Std.HashMap N Linkage
  expansions : List N

/-- Link a unit and note its expansion. -/
def Ledger.enter (ledger : Ledger N) (unit : N) (link : Linkage) : Ledger N :=
  ⟨ledger.links.insert unit link, unit :: ledger.expansions⟩

def State.ledger (state : State N) : Ledger N := ⟨state.links, state.expansions⟩

namespace Frame

/-- The link that the target of an edge gets from a frame, and whether the
target belongs to a chain. -/
def found (frame : Frame N) (edge : Edge N) : Linkage × Bool :=
  if frame.inChain then (.compile, true) else directLink edge.kind frame.isFirst

/-- The frame behind an edge that it has entered: a permission that was used is
gone. -/
def suspend (frame : Frame N) (edge : Edge N) (pending : List (Edge N)) : Frame N :=
  { frame with pending, revisit := if frame.revisits edge then none else frame.revisit }

/-- The frame of the target of an edge.  Inside a chain it inherits what is left
of the permission to expand the root again. -/
def opened (graph : BuildGraph N) (frame : Frame N) (edge : Edge N) : Frame N where
  pending := strongestFirst (graph.edges edge.target)
  isFirst := false
  inChain := (frame.found edge).2
  revisit := if (frame.found edge).2 then (frame.suspend edge []).revisit else none

end Frame

/-- `Sweep graph frame before after`: working off the pending edges of `frame`
turns the ledger `before` into `after`. -/
inductive Sweep (graph : BuildGraph N) : Frame N → Ledger N → Ledger N → Prop where
  | leave {frame : Frame N} (ledger : Ledger N) (finished : frame.pending = []) :
      Sweep graph frame ledger ledger
  /-- A linked unit is passed over, unless it is the root and to be expanded again. -/
  | pass {frame : Frame N} {edge : Edge N} {pending : List (Edge N)} {before after : Ledger N}
      (next : frame.pending = edge :: pending) (linked : edge.target ∈ before.links)
      (once : frame.revisits edge = false)
      (rest : Sweep graph { frame with pending } before after) :
      Sweep graph frame before after
  /-- Any other target is linked and swept before the rest of the frame. -/
  | enter {frame : Frame N} {edge : Edge N} {pending : List (Edge N)}
      {before middle after : Ledger N} (next : frame.pending = edge :: pending)
      (due : edge.target ∉ before.links ∨ frame.revisits edge = true)
      (inner : Sweep graph (frame.opened graph edge)
        (before.enter edge.target (frame.found edge).1) middle)
      (rest : Sweep graph (frame.suspend edge pending) middle after) :
      Sweep graph frame before after

/-! ### What a step can do -/

/-- The steps of the walk, by what becomes of the innermost frame. -/
inductive Look (graph : BuildGraph N) : State N → State N → Prop where
  | leave {frame : Frame N} (ledger : Ledger N) (outer : List (Frame N))
      (finished : frame.pending = []) :
      Look graph ⟨ledger.links, ledger.expansions, frame :: outer⟩
        ⟨ledger.links, ledger.expansions, outer⟩
  | pass {frame : Frame N} {edge : Edge N} {pending : List (Edge N)} (ledger : Ledger N)
      (outer : List (Frame N)) (next : frame.pending = edge :: pending)
      (linked : edge.target ∈ ledger.links) (once : frame.revisits edge = false) :
      Look graph ⟨ledger.links, ledger.expansions, frame :: outer⟩
        ⟨ledger.links, ledger.expansions, { frame with pending } :: outer⟩
  | enter {frame : Frame N} {edge : Edge N} {pending : List (Edge N)} (ledger : Ledger N)
      (outer : List (Frame N)) (next : frame.pending = edge :: pending)
      (due : edge.target ∉ ledger.links ∨ frame.revisits edge = true) :
      Look graph ⟨ledger.links, ledger.expansions, frame :: outer⟩
        ⟨ledger.links.insert edge.target (frame.found edge).1,
          edge.target :: ledger.expansions,
          frame.opened graph edge :: frame.suspend edge pending :: outer⟩

/-- An unfinished walk takes one of these steps. -/
theorem look_step (state : State N) (unfinished : state.stack ≠ []) :
    Look graph state (step graph state) := by
  obtain ⟨links, expansions, stack⟩ := state
  match stack with
  | [] => exact absurd rfl unfinished
  | frame :: outer =>
      cases next : frame.pending with
      | nil =>
          have look : Look graph ⟨links, expansions, frame :: outer⟩ _ :=
            .leave ⟨links, expansions⟩ outer next
          simpa only [step, next] using look
      | cons edge pending =>
          cases again : frame.revisits edge with
          | true =>
              have look : Look graph ⟨links, expansions, frame :: outer⟩ _ :=
                .enter ⟨links, expansions⟩ outer next (.inr again)
              simpa only [step, next, again, Bool.not_true, Bool.and_false, Bool.false_eq_true,
                if_false, Frame.opened, Frame.suspend, Frame.found, if_true] using look
          | false =>
              by_cases linked : edge.target ∈ links
              · have look : Look graph ⟨links, expansions, frame :: outer⟩ _ :=
                  .pass ⟨links, expansions⟩ outer next linked again
                simpa [step, next, again, linked] using look
              · have look : Look graph ⟨links, expansions, frame :: outer⟩ _ :=
                  .enter ⟨links, expansions⟩ outer next (.inl linked)
                simpa [step, next, again, linked, Frame.opened, Frame.suspend, Frame.found]
                  using look

theorem step_of_finished {state : State N} (finished : state.stack = []) :
    step graph state = state := by
  obtain ⟨links, expansions, stack⟩ := state
  cases finished
  rfl

/-- Running within a budget is stepping as often as the budget says. -/
theorem run_eq_iterate (fuel : Nat) (state : State N) :
    run graph fuel state = (step graph)^[fuel] state := by
  apply Search.run_eq_iterate (fun _ => step_of_finished) (fun _ => rfl)
  intro fuel state
  rw [run]
  cases state.stack <;> rfl

/-! ### The walk finishes -/

/-- A state between two steps of a walk from `root`. -/
structure Sound (graph : BuildGraph N) (root : N) (state : State N) : Prop where
  root_linked : root ∈ state.links
  pending : ∀ frame ∈ state.stack, ∀ edge ∈ frame.pending, edge.target ∈ graph.targets
  revisit : ∀ frame ∈ state.stack, ∀ unit ∈ frame.revisit, unit = root

/-- What a frame may still do, when expanding the root takes `degree` looks: look
at its own edges, be left, and use its permission. -/
def Frame.weight (degree : Nat) (frame : Frame N) : Nat :=
  frame.pending.length + 1 + if frame.revisit.isSome then degree + 1 else 0

/-- What it takes to expand a unit for the first time: a frame, which may get a
permission of its own. -/
def cost (graph : BuildGraph N) (root unit : N) : Nat :=
  (graph.edges unit).length + ((graph.edges root).length + 2)

/-- What the walk may still do: work off its frames, and open every target that
is not linked yet. -/
noncomputable def potential (graph : BuildGraph N) (root : N) (state : State N) : Nat :=
  (state.stack.map (Frame.weight (graph.edges root).length)).sum +
    graph.reserve (· ∈ state.links) (cost graph root)

variable {root : N}

omit [Hashable N] in
/-- A revisited edge leads to the root and uses the permission of its frame. -/
theorem Frame.revisit_of_revisits [LawfulBEq N] {frame : Frame N} {edge : Edge N}
    (again : frame.revisits edge = true) : frame.revisit = some edge.target := by
  rw [revisits, Bool.and_eq_true, beq_iff_eq] at again
  exact again.1

/-- Neither an opened frame nor the frame behind it has a permission that the
frame did not have. -/
theorem Frame.mem_revisit_opened {frame : Frame N} {edge : Edge N} {unit : N}
    (permitted : unit ∈ (frame.opened graph edge).revisit) : unit ∈ frame.revisit := by
  rw [opened, suspend] at permitted
  grind

omit [Hashable N] in
theorem Frame.mem_revisit_suspend {frame : Frame N} {edge : Edge N} {pending : List (Edge N)}
    {unit : N} (permitted : unit ∈ (frame.suspend edge pending).revisit) :
    unit ∈ frame.revisit := by
  rw [suspend] at permitted
  grind

variable [LawfulBEq N]

theorem Sound.look {before after : State N} (sound : Sound graph root before)
    (look : Look graph before after) : Sound graph root after := by
  obtain ⟨linked, pending, revisit⟩ := sound
  cases look with
  | leave _ outer _ =>
      exact ⟨linked, fun frame member => pending frame (List.mem_cons_of_mem _ member),
        fun frame member => revisit frame (List.mem_cons_of_mem _ member)⟩
  | @pass frame edge later _ outer next =>
      have own := pending frame List.mem_cons_self
      rw [next] at own
      refine ⟨linked, List.forall_mem_cons.mpr ⟨?_, ?_⟩, List.forall_mem_cons.mpr ⟨?_, ?_⟩⟩
      · exact fun edge member => own edge (List.mem_cons_of_mem _ member)
      · exact fun frame member => pending frame (List.mem_cons_of_mem _ member)
      · exact revisit frame List.mem_cons_self
      · exact fun frame member => revisit frame (List.mem_cons_of_mem _ member)
  | @enter frame edge later _ outer next =>
      have own := pending frame List.mem_cons_self
      rw [next] at own
      refine ⟨?_, List.forall_mem_cons.mpr ⟨?_, List.forall_mem_cons.mpr ⟨?_, ?_⟩⟩,
        List.forall_mem_cons.mpr ⟨?_, List.forall_mem_cons.mpr ⟨?_, ?_⟩⟩⟩
      · exact Std.HashMap.mem_insert.mpr (.inr linked)
      · intro given member
        exact BuildGraph.target_mem_targets ((strongestFirst_perm _).mem_iff.mp member)
      · exact fun edge member => own edge (List.mem_cons_of_mem _ member)
      · exact fun frame member => pending frame (List.mem_cons_of_mem _ member)
      · exact fun unit permitted =>
          revisit frame List.mem_cons_self unit (Frame.mem_revisit_opened permitted)
      · exact fun unit permitted =>
          revisit frame List.mem_cons_self unit (Frame.mem_revisit_suspend permitted)
      · exact fun frame member => revisit frame (List.mem_cons_of_mem _ member)

/-- Using a permission pays for expanding the root. -/
theorem Frame.weight_again (graph : BuildGraph N) {frame : Frame N} {edge : Edge N}
    {pending : List (Edge N)} (next : frame.pending = edge :: pending)
    (again : frame.revisits edge = true) :
    weight (graph.edges edge.target).length (frame.opened graph edge) +
        weight (graph.edges edge.target).length (frame.suspend edge pending) <
      weight (graph.edges edge.target).length frame := by
  have permitted := revisit_of_revisits again
  have looks := (strongestFirst_perm (graph.edges edge.target)).length_eq
  simp only [weight, opened, suspend, again, permitted, next, looks, if_true, List.length_cons,
    Option.isSome_none, Option.isSome_some, Bool.false_eq_true, if_false, ite_self]
  omega

omit [LawfulBEq N] in
/-- A unit that is opened for the first time costs its edges and, at most, a
permission. -/
theorem Frame.weight_new (graph : BuildGraph N) (root : N) {frame : Frame N} {edge : Edge N}
    {pending : List (Edge N)} (next : frame.pending = edge :: pending)
    (once : frame.revisits edge = false) :
    weight (graph.edges root).length (frame.opened graph edge) +
        weight (graph.edges root).length (frame.suspend edge pending) <
      weight (graph.edges root).length frame + cost graph root edge.target := by
  have inherited : ∀ degree, (if (frame.opened graph edge).revisit.isSome then degree + 1 else 0) ≤
      degree + 1 := by
    intro degree
    split <;> omega
  have kept : (frame.suspend edge pending).revisit = frame.revisit := by
    simp [suspend, once]
  have looks : (frame.opened graph edge).pending.length = (graph.edges edge.target).length :=
    (strongestFirst_perm _).length_eq
  have rest : (frame.suspend edge pending).pending = pending := rfl
  have bound := inherited (graph.edges root).length
  rw [weight, weight, weight, kept, next, looks, rest, List.length_cons, cost]
  omega

/-- Every step spends some of the potential. -/
theorem potential_look_lt {before after : State N} (sound : Sound graph root before)
    (look : Look graph before after) :
    potential graph root after < potential graph root before := by
  cases look with
  | leave ledger outer finished => simp [potential, Frame.weight]
  | pass ledger outer next => simp [potential, Frame.weight, next]
  | @enter frame edge later ledger outer next due =>
      simp only [potential, List.map_cons, List.sum_cons]
      cases again : frame.revisits edge with
      | true =>
          have toRoot : edge.target = root :=
            sound.revisit frame List.mem_cons_self _ (Frame.revisit_of_revisits again)
          have spent := Frame.weight_again graph next again
          have same : graph.reserve (· ∈ ledger.links.insert edge.target (frame.found edge).1)
              (cost graph root) = graph.reserve (· ∈ ledger.links) (cost graph root) := by
            apply BuildGraph.reserve_congr
            intro unit
            rw [Std.HashMap.mem_insert, beq_iff_eq, toRoot]
            exact or_iff_right_of_imp fun isRoot => isRoot ▸ sound.root_linked
          rw [toRoot] at spent same ⊢
          omega
      | false =>
          have new : edge.target ∉ ledger.links := due.resolve_right (by simp [again])
          have isTarget := sound.pending frame List.mem_cons_self edge (by simp [next])
          have spent := Frame.weight_new graph root next again
          have free : graph.reserve (· ∈ ledger.links.insert edge.target (frame.found edge).1)
              (cost graph root) + cost graph root edge.target =
                graph.reserve (· ∈ ledger.links) (cost graph root) := by
            apply BuildGraph.reserve_add isTarget new
            intro unit
            rw [Std.HashMap.mem_insert, beq_iff_eq, eq_comm]
          omega

theorem Sound.step {state : State N} (sound : Sound graph root state) :
    Sound graph root (step graph state) := by
  by_cases finished : state.stack = []
  · rwa [step_of_finished finished]
  · exact sound.look (look_step state finished)

theorem Sound.start (graph : BuildGraph N) (root : N) :
    Sound graph root (State.start graph root) where
  root_linked := Std.HashMap.mem_insert_self
  pending := by
    intro frame member edge pending
    cases List.mem_singleton.mp member
    exact BuildGraph.target_mem_targets ((strongestFirst_perm _).mem_iff.mp pending)
  revisit := by
    intro frame member unit permitted
    cases List.mem_singleton.mp member
    cases permitted
    rfl

/-- The budget covers the potential of a walk that starts. -/
theorem potential_start_le (graph : BuildGraph N) (root : N) :
    potential graph root (State.start graph root) ≤ budget graph := by
  have linked : root ∈ (State.start graph root).links := (Sound.start graph root).root_linked
  have looks : (graph.edges root).length + graph.reserve (· ∈ (State.start graph root).links)
      (fun unit => (graph.edges unit).length) ≤ graph.edgeCount :=
    BuildGraph.reserve_degree_le linked
  have frames := graph.reserve_const_le (· ∈ (State.start graph root).links)
    ((graph.edges root).length + 2)
  have degree : (graph.edges root).length ≤ graph.edgeCount := by omega
  have widest := Nat.mul_le_mul_left graph.edgeCount (Nat.add_le_add_right degree 2)
  have split : graph.reserve (· ∈ (State.start graph root).links) (cost graph root) = _ :=
    BuildGraph.reserve_add_cost _ _ _
  have weight : ((State.start graph root).stack.map
      (Frame.weight (graph.edges root).length)).sum = 2 * (graph.edges root).length + 2 := by
    simp only [State.start, List.map_cons, List.map_nil, List.sum_cons, List.sum_nil, Frame.weight,
      (strongestFirst_perm _).length_eq, Option.isSome_some, if_true]
    omega
  have wide : budget graph =
      graph.edgeCount * (graph.edgeCount + 2) + graph.edgeCount * graph.edgeCount +
        6 * graph.edgeCount + 8 := by
    rw [budget]
    ring
  rw [potential, split, weight, wide]
  omega

/-- The walk from a root is finished within its budget. -/
theorem stack_closureWalk (graph : BuildGraph N) (root : N) :
    (graph.closureWalk root).stack = [] := by
  rw [BuildGraph.closureWalk, run_eq_iterate]
  exact Search.finished_iterate (fun _ => step_of_finished) (fun _ => Sound.step)
    (fun state sound unfinished => potential_look_lt sound (look_step state unfinished))
    (budget graph) _ (Sound.start graph root) (potential_start_le graph root)

/-! ### The walk sweeps -/

/-- The frames of a stack are swept, the innermost first. -/
def Sweeps (graph : BuildGraph N) : List (Frame N) → Ledger N → Ledger N → Prop :=
  Search.InTurn (Sweep graph)

omit [LawfulBEq N] in
/-- What is swept after a step, together with the step, is what was to be swept
before it. -/
theorem Sweeps.of_look {before after : State N} {final : Ledger N}
    (look : Look graph before after) (onward : Sweeps graph after.stack after.ledger final) :
    Sweeps graph before.stack before.ledger final := by
  cases look with
  | leave ledger outer finished => exact ⟨ledger, .leave ledger finished, onward⟩
  | pass ledger outer next linked once =>
      obtain ⟨middle, rest, outward⟩ := onward
      exact ⟨middle, .pass next linked once rest, outward⟩
  | enter ledger outer next due =>
      obtain ⟨entered, inner, middle, rest, outward⟩ := onward
      exact ⟨middle, .enter next due inner rest, outward⟩

/-- The frame of the root at the start of a walk. -/
def rootFrame (graph : BuildGraph N) (root : N) : Frame N :=
  ⟨strongestFirst (graph.edges root), true, false, some root⟩

/-- The whole walk is a sweep of the root's frame. -/
theorem sweep_closureWalk (graph : BuildGraph N) (root : N) :
    Sweep graph (rootFrame graph root) (State.start graph root).ledger
      (graph.closureWalk root).ledger := by
  have finished := stack_closureWalk graph root
  rw [BuildGraph.closureWalk, run_eq_iterate] at finished ⊢
  have sweeps : Sweeps graph _ _ _ :=
    Search.InTurn.of_finished (fun _ => step_of_finished) (fun _ => Sound.step)
      (fun state _ _ unfinished => Sweeps.of_look (look_step state unfinished))
      (budget graph) _ (Sound.start graph root) finished
  obtain ⟨middle, sweep, same⟩ := sweeps
  rw [← same]
  exact sweep

end Closure

end BuildImpact
