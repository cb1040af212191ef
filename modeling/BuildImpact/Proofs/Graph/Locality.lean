/-
Module: BuildImpact.Proofs.Graph.Locality
Layer: Proofs
Purpose: No search reads the edges of a unit that its root does not reach.  Two graphs
  that agree on the edges of everything reached from a root are walked in lockstep: a
  step looks up the edges of one reached unit and puts reached units on the stack or on
  the next layer.  The budgets of the two graphs differ, but each of them suffices, and
  what is left of a budget at the end of a walk changes nothing.
Imports: Mathlib.Tactic.IntervalCases, BuildImpact.Proofs.Closure.Sweep,
  BuildImpact.Proofs.Depths.Minimal, BuildImpact.Proofs.Impact.Refinement,
  BuildImpact.Proofs.Route.Search
Trusted boundary: none
Main exports: BuildGraph.AgreeFrom, BuildGraph.AgreeFrom.impactWithin,
  BuildGraph.AgreeFrom.closureWalk, BuildGraph.AgreeFrom.run, BuildGraph.SameAnswers,
  BuildGraph.answers_local
Open obligations: none
-/
import Mathlib.Tactic.IntervalCases
import BuildImpact.Proofs.Closure.Sweep
import BuildImpact.Proofs.Depths.Minimal
import BuildImpact.Proofs.Impact.Refinement
import BuildImpact.Proofs.Route.Search

namespace BuildImpact

variable {N : Type} [BEq N] [Hashable N]

namespace BuildGraph

/-- Whether two graphs have the same edges, in the same order, out of every unit that
`root` reaches in the first one. -/
def AgreeFrom (graph other : BuildGraph N) (root : N) : Prop :=
  ∀ unit, graph.Reaches root unit → other.edges unit = graph.edges unit

variable {graph other : BuildGraph N} {root : N}

/-- The root's own edges are the same. -/
theorem AgreeFrom.edges_root (agree : AgreeFrom graph other root) :
    other.edges root = graph.edges root :=
  agree root (.refl root)

end BuildGraph

variable {graph other : BuildGraph N} {root : N}

open BuildGraph (AgreeFrom)

/-! ### The impact walk -/

namespace Impact

/-- Every edge still to be looked at leads to a unit that the root reaches. -/
def Within (graph : BuildGraph N) (root : N) (state : State N) : Prop :=
  ∀ frame ∈ state.stack, ∀ edge ∈ frame.pending, graph.Reaches root edge.target

theorem Within.start (graph : BuildGraph N) (root : N) :
    Within graph root (State.start graph root) := by
  intro frame member edge given
  cases List.mem_singleton.mp member
  exact .of_mem given

theorem Within.look {before after : State N} (within : Within graph root before)
    (look : Look graph before after) : Within graph root after := by
  have outward : ∀ {frame : Frame N} {outer : List (Frame N)},
      (∀ inner ∈ frame :: outer, ∀ edge ∈ inner.pending, graph.Reaches root edge.target) →
      ∀ inner ∈ outer, ∀ edge ∈ inner.pending, graph.Reaches root edge.target :=
    fun all inner member => all inner (List.mem_cons_of_mem _ member)
  cases look with
  | leave => exact outward within
  | pass | mark =>
      refine List.forall_mem_cons.mpr ⟨fun edge member => ?_, outward within⟩
      exact within _ List.mem_cons_self edge (List.mem_cons_of_mem _ member)
  | enter =>
      refine List.forall_mem_cons.mpr ⟨fun edge given => ?_,
        List.forall_mem_cons.mpr ⟨fun edge member => ?_, outward within⟩⟩
      · exact (within _ List.mem_cons_self _ List.mem_cons_self).trans (.of_mem given)
      · exact within _ List.mem_cons_self edge (List.mem_cons_of_mem _ member)

theorem Within.step [LawfulBEq N] {state : State N} (within : Within graph root state) :
    Within graph root (step graph state) := by
  by_cases finished : state.stack = []
  · rwa [step_of_finished finished]
  · exact within.look (look_step state finished)

/-- The only edges that a step looks up are those of the target at hand. -/
theorem step_congr (agree : AgreeFrom graph other root) {state : State N}
    (within : Within graph root state) : step other state = step graph state := by
  obtain ⟨matched, discoveries, stack⟩ := state
  match stack with
  | [] => rfl
  | ⟨[], inChain⟩ :: outer => rfl
  | ⟨edge :: pending, inChain⟩ :: outer =>
      have reached := within _ List.mem_cons_self _ List.mem_cons_self
      simp only [step, agree _ reached]

end Impact

namespace BuildGraph.AgreeFrom

variable [LawfulBEq N]

/-- The impact walks of the two graphs end in the same state. -/
theorem impactWithin (agree : AgreeFrom graph other root) :
    other.impactWithin (Impact.budget other) root =
      graph.impactWithin (Impact.budget graph) root := by
  have start : Impact.State.start other root = Impact.State.start graph root := by
    rw [Impact.State.start, Impact.State.start, agree.edges_root]
  have finished := Impact.stack_impactWithin graph root
  have finishedOther := Impact.stack_impactWithin other root
  simp only [BuildGraph.impactWithin, Impact.run_eq_iterate, start] at *
  exact Search.iterate_eq_of_finished (fun _ => Impact.step_of_finished)
    (fun _ => Impact.step_of_finished) (fun _ => Impact.Within.step)
    (fun _ => Impact.step_congr agree) (Impact.Within.start graph root) finished finishedOther

end BuildGraph.AgreeFrom

/-! ### The closure walk -/

namespace Closure

/-- Every edge still to be looked at leads to a unit that the root reaches. -/
def Within (graph : BuildGraph N) (root : N) (state : State N) : Prop :=
  ∀ frame ∈ state.stack, ∀ edge ∈ frame.pending, graph.Reaches root edge.target

theorem Within.start (graph : BuildGraph N) (root : N) :
    Within graph root (State.start graph root) := by
  intro frame member edge given
  cases List.mem_singleton.mp member
  exact .of_mem ((strongestFirst_perm _).mem_iff.mp given)

theorem Within.look {before after : State N} (within : Within graph root before)
    (look : Look graph before after) : Within graph root after := by
  cases look with
  | leave _ outer _ => exact fun frame member => within frame (List.mem_cons_of_mem _ member)
  | @pass frame edge pending _ outer next =>
      have own := within frame List.mem_cons_self
      rw [next, List.forall_mem_cons] at own
      exact List.forall_mem_cons.mpr
        ⟨own.2, fun frame member => within frame (List.mem_cons_of_mem _ member)⟩
  | @enter frame edge pending _ outer next =>
      have own := within frame List.mem_cons_self
      rw [next, List.forall_mem_cons] at own
      refine List.forall_mem_cons.mpr ⟨fun onward given => ?_, List.forall_mem_cons.mpr
        ⟨own.2, fun frame member => within frame (List.mem_cons_of_mem _ member)⟩⟩
      exact own.1.trans (.of_mem ((strongestFirst_perm _).mem_iff.mp given))

theorem Within.step [LawfulBEq N] {state : State N} (within : Within graph root state) :
    Within graph root (step graph state) := by
  by_cases finished : state.stack = []
  · rwa [step_of_finished finished]
  · exact within.look (look_step state finished)

/-- The only edges that a step looks up are those of the target at hand, also when it
expands the root again. -/
theorem step_congr (agree : AgreeFrom graph other root) {state : State N}
    (within : Within graph root state) : step other state = step graph state := by
  obtain ⟨links, expansions, stack⟩ := state
  match stack with
  | [] => rfl
  | ⟨[], isFirst, inChain, revisit⟩ :: outer => rfl
  | ⟨edge :: pending, isFirst, inChain, revisit⟩ :: outer =>
      have reached := within _ List.mem_cons_self _ List.mem_cons_self
      simp only [step, agree _ reached]

end Closure

namespace BuildGraph.AgreeFrom

variable [LawfulBEq N]

/-- The closure walks of the two graphs end in the same state. -/
theorem closureWalk (agree : AgreeFrom graph other root) :
    other.closureWalk root = graph.closureWalk root := by
  have start : Closure.State.start other root = Closure.State.start graph root := by
    rw [Closure.State.start, Closure.State.start, agree.edges_root]
  have finished := Closure.stack_closureWalk graph root
  have finishedOther := Closure.stack_closureWalk other root
  simp only [BuildGraph.closureWalk, Closure.run_eq_iterate, start] at *
  exact Search.iterate_eq_of_finished (fun _ => Closure.step_of_finished)
    (fun _ => Closure.step_of_finished) (fun _ => Closure.Within.step)
    (fun _ => Closure.step_congr agree) (Closure.Within.start graph root) finished finishedOther

end BuildGraph.AgreeFrom

/-! ### The layered walks -/

namespace Layers

variable {σ : Type} {visitor : Visitor N σ}

/-- The units of the layer at hand and of the next one are reached from the root. -/
structure Within (graph : BuildGraph N) (root : N) (state : State N σ) : Prop where
  current : ∀ arrival ∈ state.current, graph.Reaches root arrival.unit
  next : ∀ arrival ∈ state.next, graph.Reaches root arrival.unit

theorem Within.start (graph : BuildGraph N) (root : N) (memory : σ) :
    Within graph root (State.start root memory) where
  current := by
    intro arrival member
    cases List.mem_singleton.mp member
    exact .refl root
  next := nofun

/-- Whatever the visitor follows, an edge of a reached unit leads to a reached unit. -/
theorem reaches_of_mem_visit (visitor : Visitor N σ) (memory : σ) {arrival : Arrival N}
    {next : List (Arrival N)} (here : graph.Reaches root arrival.unit)
    (known : ∀ found ∈ next, graph.Reaches root found.unit) :
    ∀ found ∈ (visit graph visitor arrival next memory).1, graph.Reaches root found.unit := by
  let Reached (edges : List (Edge N)) (next : List (Arrival N)) (_ : σ) : Prop :=
    (∀ edge ∈ edges, graph.Reaches root edge.target) ∧
      ∀ found ∈ next, graph.Reaches root found.unit
  have start : Reached (graph.edges arrival.unit) next (visitor.arrive memory arrival) :=
    ⟨fun edge given => here.trans (.of_mem given), known⟩
  refine (follow_induction Reached ?_ ?_ start).2
  · intro edge edges next memory memory' _ reached
    obtain ⟨target, edges⟩ := List.forall_mem_cons.mp reached.1
    exact ⟨edges, List.forall_mem_cons.mpr ⟨target, reached.2⟩⟩
  · exact fun _ reached => ⟨(List.forall_mem_cons.mp reached.1).2, reached.2⟩

theorem Within.step {state : State N σ} (within : Within graph root state) :
    Within graph root (step graph visitor state) := by
  obtain ⟨current, next, memory⟩ := state
  match current with
  | [] => exact within
  | [arrival] =>
      have led := reaches_of_mem_visit visitor memory
        (within.current arrival List.mem_cons_self) within.next
      exact ⟨fun found member => led found (List.mem_reverse.mp member), nofun⟩
  | arrival :: following :: waiting =>
      have led := reaches_of_mem_visit visitor memory
        (within.current arrival List.mem_cons_self) within.next
      exact ⟨fun found member => within.current found (List.mem_cons_of_mem _ member), led⟩

/-- The only edges that a visit looks up are those of the unit at hand. -/
theorem step_congr (agree : AgreeFrom graph other root) {state : State N σ}
    (within : Within graph root state) : step other visitor state = step graph visitor state := by
  obtain ⟨current, next, memory⟩ := state
  match current with
  | [] => rfl
  | arrival :: waiting =>
      have reached := within.current arrival List.mem_cons_self
      simp only [step, agree _ reached]

/-- As many visits in the one graph as in the other come to the same state, which is
again within reach of the root. -/
theorem steps_congr (visitor : Visitor N σ) (agree : AgreeFrom graph other root) (count : Nat)
    {state : State N σ} (within : Within graph root state) :
    steps other visitor count state = steps graph visitor count state ∧
      Within graph root (steps graph visitor count state) := by
  induction count generalizing state with
  | zero => exact ⟨rfl, within⟩
  | succ count inductionHypothesis =>
      rw [steps, steps, step_congr agree within]
      exact inductionHypothesis within.step

/-- As many layers in the one graph as in the other come to the same state. -/
theorem run_congr (visitor : Visitor N σ) (agree : AgreeFrom graph other root) (layers : Nat)
    {state : State N σ} (within : Within graph root state) :
    run other visitor layers state = run graph visitor layers state := by
  induction layers generalizing state with
  | zero => rfl
  | succ layers inductionHypothesis =>
      obtain ⟨current, next, memory⟩ := state
      cases current with
      | nil => rfl
      | cons arrival waiting =>
          obtain ⟨same, onward⟩ := steps_congr visitor agree (arrival :: waiting).length within
          simp only [run, same]
          exact inductionHypothesis onward

/-- Layers beyond the end of a walk change nothing. -/
theorem run_of_finished {layers larger : Nat} (enough : layers ≤ larger) {state : State N σ}
    (finished : (run graph visitor layers state).current = []) :
    run graph visitor larger state = run graph visitor layers state := by
  induction layers generalizing state larger with
  | zero =>
      rw [run] at finished
      cases larger <;> simp [run, finished]
  | succ layers inductionHypothesis =>
      obtain ⟨larger, rfl⟩ := Nat.exists_eq_add_of_le' enough
      obtain ⟨current, next, memory⟩ := state
      cases current with
      | nil => rfl
      | cons arrival waiting =>
          exact inductionHypothesis (Nat.le_add_left layers larger) finished

end Layers

namespace BuildGraph.AgreeFrom

/-- A walk through the layers remembers the same in both graphs if in each of them it
ends within the budget. -/
theorem walk {σ : Type} {visitor : Layers.Visitor N σ} {memory : σ}
    (agree : AgreeFrom graph other root)
    (finished : (Layers.run graph visitor (Layers.budget graph)
      (.start root memory)).current = [])
    (finishedOther : (Layers.run other visitor (Layers.budget other)
      (.start root memory)).current = []) :
    Layers.walk other visitor root memory = Layers.walk graph visitor root memory := by
  have common := Layers.run_congr visitor agree
    (max (Layers.budget graph) (Layers.budget other)) (.start graph root memory)
  rw [Layers.run_of_finished (Nat.le_max_left _ _) finished,
    Layers.run_of_finished (Nat.le_max_right _ _) finishedOther] at common
  rw [Layers.walk, Layers.walk, common]

variable [LawfulBEq N]

theorem depths (agree : AgreeFrom graph other root) : other.depths root = graph.depths root := by
  have finished : ∀ graph : BuildGraph N, (Layers.run graph Depths.recorder (Layers.budget graph)
      (.start root ∅)).current = [] := by
    intro graph
    have ends : ∃ reached final, _ ∧ Layers.run graph Depths.recorder (Layers.budget graph)
        (.start root ∅) = ⟨[], [], final⟩ :=
      Depths.kept_frontier.ends (.inl (Depths.untouched_start root)) Depths.depth_lt_budget
    obtain ⟨_, _, _, ran⟩ := ends
    rw [ran]
  exact agree.walk (finished graph) (finished other)

theorem routeRecords (agree : AgreeFrom graph other root) (gate : Route.Gate) :
    other.routeRecords gate root = graph.routeRecords gate root := by
  have finished : ∀ graph : BuildGraph N, (Layers.run graph (Route.recorder gate)
      (Layers.budget graph) (.start root ∅)).current = [] := by
    intro graph
    obtain ⟨_, _, _, ran⟩ := Route.kept_frontier.ends (Route.frontier_start graph gate root)
      fun frontier => frontier.depth_lt_budget
    rw [ran]
  exact agree.walk (finished graph) (finished other)

theorem searchRoute (agree : AgreeFrom graph other root) (gate : Route.Gate) (target : N) :
    other.searchRoute gate root target = graph.searchRoute gate root target := by
  rw [BuildGraph.searchRoute, BuildGraph.searchRoute, agree.routeRecords]

end BuildGraph.AgreeFrom

/-! ### The answers -/

namespace BuildGraph

/-- Whether two graphs give the same answer to each question about `root`. -/
structure SameAnswers (graph other : BuildGraph N) (root : N) : Prop where
  impact : other.impact root = graph.impact root
  closure : other.closure root = graph.closure root
  depths : other.depths root = graph.depths root
  shortestRoute : ∀ target, other.shortestRoute? root target = graph.shortestRoute? root target
  gatedRoute : ∀ target, other.gatedRoute? root target = graph.gatedRoute? root target

/-- The graph in which `unit` has the given edges in place of its own. -/
def withEdges (graph : BuildGraph N) (unit : N) (edges : List (Edge N)) : BuildGraph N :=
  ⟨graph.outgoing.insert unit edges⟩

variable [LawfulBEq N]

theorem edges_withEdges (unit another : N) (edges : List (Edge N)) :
    (graph.withEdges unit edges).edges another =
      if unit == another then edges else graph.edges another := by
  simp [BuildGraph.edges, withEdges, Std.HashMap.getD_insert]

theorem AgreeFrom.sameAnswers (agree : AgreeFrom graph other root) :
    SameAnswers graph other root where
  impact := congrArg Impact.State.matched agree.impactWithin
  closure := congrArg Closure.State.links agree.closureWalk
  depths := agree.depths
  shortestRoute target := congrArg Route.Outcome.route (agree.searchRoute .anyEdge target)
  gatedRoute target := congrArg Route.Outcome.route (agree.searchRoute .compileEdge target)

/-- The edges of a unit that the root does not reach are of no concern to it. -/
theorem agreeFrom_withEdges {unit : N} (apart : ¬ graph.Reaches root unit)
    (edges : List (Edge N)) : AgreeFrom graph (graph.withEdges unit edges) root := by
  intro another reaches
  rw [edges_withEdges, if_neg]
  intro same
  exact apart (eq_of_beq same ▸ reaches)

/-- A source without edges is a leaf as it was without an entry. -/
theorem agreeFrom_addEdges_nil (graph : BuildGraph N) (root unit : N) :
    AgreeFrom graph (graph.addEdges unit []) root := by
  intro another _
  rw [edges_addEdges, List.append_nil]
  split
  · rename_i same
    rw [eq_of_beq same]
  · rfl

/-- Every answer about a root depends on the edges of the units it reaches alone.  So
whatever edges a unit has that is not reached, and whether a unit without edges has an
entry, changes no answer. -/
theorem answers_local (graph : BuildGraph N) (root : N) :
    (∀ other : BuildGraph N,
      (∀ unit, graph.Reaches root unit → other.edges unit = graph.edges unit) →
        SameAnswers graph other root) ∧
    (∀ unit edges, ¬ graph.Reaches root unit →
      SameAnswers graph (graph.withEdges unit edges) root) ∧
    ∀ unit, SameAnswers graph (graph.addEdges unit []) root :=
  ⟨fun _ agree => AgreeFrom.sameAnswers agree,
    fun _ edges apart => (agreeFrom_withEdges apart edges).sameAnswers,
    fun unit => (agreeFrom_addEdges_nil graph root unit).sameAnswers⟩

/-- The cycle through `0` with units apart from it, which point into it. -/
def roundaboutAside : BuildGraph Nat :=
  ofList [(7, [⟨0, .compile⟩, ⟨8, .reexport⟩]), (1, [⟨0, .runtime⟩, ⟨3, .runtime⟩]),
    (8, [⟨1, .compile⟩]), (2, [⟨1, .reexport⟩]), (3, []), (0, [⟨2, .runtime⟩, ⟨1, .compile⟩])]

/-- No edge of the cycle leads to a unit apart from it. -/
theorem lt_of_reaches_roundabout {unit : Nat} (reaches : roundabout.Reaches 0 unit) :
    unit < 4 := by
  have inside : ∀ unit, ∀ edge ∈ roundabout.edges unit, edge.target < 4 := by
    rw [roundabout, forall_edges_ofList]
    decide
  exact reaches.closed (fun unit (_ : unit < 4) => inside unit) (by decide)

/-- The units apart from the cycle change no answer about `0`, nor do other edges of one
of them. -/
theorem answers_local_roundaboutAside :
    (∀ unit, roundabout.Reaches 0 unit → roundaboutAside.edges unit = roundabout.edges unit) ∧
      SameAnswers roundabout roundaboutAside 0 ∧
      ¬ roundabout.Reaches 0 7 ∧
      SameAnswers roundabout (roundabout.withEdges 7 [⟨0, .runtime⟩]) 0 := by
  have agree : ∀ unit, roundabout.Reaches 0 unit →
      roundaboutAside.edges unit = roundabout.edges unit := by
    intro unit reaches
    have inside := lt_of_reaches_roundabout reaches
    interval_cases unit <;> simp [roundaboutAside, roundabout, ofList]
  have apart : ¬ roundabout.Reaches 0 7 := fun reaches =>
    absurd (lt_of_reaches_roundabout reaches) (by decide)
  obtain ⟨elsewhere, aside, _⟩ := answers_local roundabout 0
  exact ⟨agree, elsewhere roundaboutAside agree, apart, aside 7 [⟨0, .runtime⟩] apart⟩

end BuildGraph

end BuildImpact
