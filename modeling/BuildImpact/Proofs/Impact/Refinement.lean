/-
Module: BuildImpact.Proofs.Impact.Refinement
Layer: Proofs
Purpose: The stack of suspended frames does the recursive walk.  Each step of the run is
  one of four looks at an edge; every look lowers a potential that starts below the
  budget, so the run finishes, and a finished run has visited the frames of its stack
  one after another.
Imports: BuildImpact.Proofs.Graph.Edges, BuildImpact.Proofs.Graph.Search,
  BuildImpact.Proofs.Impact.Recursion
Trusted boundary: none
Main exports: Impact.Look, Impact.potential, Impact.inTurn_of_finished,
  BuildGraph.impact_refines_recursion
Open obligations: none
-/
import BuildImpact.Proofs.Graph.Edges
import BuildImpact.Proofs.Graph.Search
import BuildImpact.Proofs.Impact.Recursion

namespace BuildImpact

variable {N : Type} [BEq N] [Hashable N] {graph : BuildGraph N}

namespace Impact

/-! ### What a step can do -/

/-- The steps of the walk, by what becomes of the innermost frame. -/
inductive Look (graph : BuildGraph N) : State N → State N → Prop where
  /-- A unit without further edges is left. -/
  | leave (matched : Std.HashSet N) (discoveries : List (Discovery N)) (inChain : Bool)
      (outer : List (Frame N)) :
      Look graph ⟨matched, discoveries, ⟨[], inChain⟩ :: outer⟩ ⟨matched, discoveries, outer⟩
  /-- An edge that does not count, or leads to a known unit, is passed over. -/
  | pass {matched : Std.HashSet N} {edge : Edge N} {inChain : Bool}
      (discoveries : List (Discovery N)) (pending : List (Edge N)) (outer : List (Frame N))
      (inert : follows inChain edge.kind = false ∨ edge.target ∈ matched) :
      Look graph ⟨matched, discoveries, ⟨edge :: pending, inChain⟩ :: outer⟩
        ⟨matched, discoveries, ⟨pending, inChain⟩ :: outer⟩
  /-- An export edge matches its target. -/
  | mark {matched : Std.HashSet N} {target : N} (discoveries : List (Discovery N))
      (pending : List (Edge N)) (inChain : Bool) (outer : List (Frame N))
      (new : target ∉ matched) :
      Look graph ⟨matched, discoveries, ⟨⟨target, .reexport⟩ :: pending, inChain⟩ :: outer⟩
        ⟨matched.insert target, ⟨target, false⟩ :: discoveries, ⟨pending, inChain⟩ :: outer⟩
  /-- An edge of a chain, or a compile edge, matches its target and opens it. -/
  | enter {matched : Std.HashSet N} {edge : Edge N} {inChain : Bool}
      (discoveries : List (Discovery N)) (pending : List (Edge N)) (outer : List (Frame N))
      (new : edge.target ∉ matched) (followed : follows inChain edge.kind = true)
      (opens : expands edge.kind = true) :
      Look graph ⟨matched, discoveries, ⟨edge :: pending, inChain⟩ :: outer⟩
        ⟨matched.insert edge.target, ⟨edge.target, true⟩ :: discoveries,
          ⟨graph.edges edge.target, true⟩ :: ⟨pending, inChain⟩ :: outer⟩

/-- An unfinished walk takes one of these steps. -/
theorem look_step (state : State N) (unfinished : state.stack ≠ []) :
    Look graph state (step graph state) := by
  obtain ⟨matched, discoveries, stack⟩ := state
  match stack with
  | [] => exact absurd rfl unfinished
  | ⟨[], inChain⟩ :: outer => exact .leave matched discoveries inChain outer
  | ⟨edge :: pending, inChain⟩ :: outer =>
      by_cases inert : follows inChain edge.kind = false ∨ edge.target ∈ matched
      · have same : step graph ⟨matched, discoveries, ⟨edge :: pending, inChain⟩ :: outer⟩ =
            ⟨matched, discoveries, ⟨pending, inChain⟩ :: outer⟩ := by
          rcases inert with ignored | old
          · simp [step, ignored]
          · simp [step, old]
        rw [same]
        exact .pass discoveries pending outer inert
      · obtain ⟨followed, new⟩ := not_or.mp inert
        rw [Bool.not_eq_false] at followed
        obtain ⟨target, kind⟩ := edge
        cases kind with
        | reexport =>
            have look : Look graph _ _ := .mark discoveries pending inChain outer new
            simpa [step, new, followed, expands] using look
        | compile | runtime =>
            have look : Look graph _ _ := .enter discoveries pending outer new followed rfl
            simpa [step, new, followed, expands] using look

theorem step_of_finished {state : State N} (finished : state.stack = []) :
    step graph state = state := by
  obtain ⟨matched, discoveries, stack⟩ := state
  cases finished
  rfl

/-- Running within a budget is stepping as often as the budget says. -/
theorem run_eq_iterate (fuel : Nat) (state : State N) :
    run graph fuel state = (step graph)^[fuel] state := by
  apply Search.run_eq_iterate (fun _ => step_of_finished) (fun _ => rfl)
  intro fuel state
  rw [run]
  cases state.stack <;> rfl

/-! ### The walk finishes -/

/-- A state between two steps: the matched units are those discovered, and the
edges still to be looked at are edges of the graph. -/
structure Sound (graph : BuildGraph N) (state : State N) : Prop where
  matched : ∀ unit, unit ∈ state.matched ↔ Found state.discoveries unit
  pending : ∀ frame ∈ state.stack, ∀ edge ∈ frame.pending, edge.target ∈ graph.targets

/-- What the walk may still do: leave its frames, look at their edges, and do
the same for every target that is not matched yet. -/
noncomputable def potential (graph : BuildGraph N) (state : State N) : Nat :=
  (state.stack.map fun frame => frame.pending.length + 1).sum +
    graph.reserve (· ∈ state.matched) fun unit => (graph.edges unit).length + 1

omit [BEq N] [Hashable N] in
theorem found_cons {discoveries : List (Discovery N)} {discovery : Discovery N} {unit : N} :
    Found (discovery :: discoveries) unit ↔
      discovery.unit = unit ∨ Found discoveries unit := by
  simp [Found]

variable [LawfulBEq N]

theorem Sound.look {before after : State N} (sound : Sound graph before)
    (look : Look graph before after) : Sound graph after := by
  obtain ⟨matched, pending⟩ := sound
  cases look with
  | leave _ _ _ outer =>
      exact ⟨matched, fun frame member => pending frame (List.mem_cons_of_mem _ member)⟩
  | pass _ later outer _ =>
      refine ⟨matched, List.forall_mem_cons.mpr ⟨?_, ?_⟩⟩
      · exact fun edge member => pending _ List.mem_cons_self edge (List.mem_cons_of_mem _ member)
      · exact fun frame member => pending frame (List.mem_cons_of_mem _ member)
  | mark _ later _ outer _ =>
      refine ⟨fun unit => ?_, List.forall_mem_cons.mpr ⟨?_, ?_⟩⟩
      · rw [Std.HashSet.mem_insert, found_cons, beq_iff_eq, matched]
      · exact fun edge member => pending _ List.mem_cons_self edge (List.mem_cons_of_mem _ member)
      · exact fun frame member => pending frame (List.mem_cons_of_mem _ member)
  | enter _ later outer _ _ _ =>
      refine ⟨fun unit => ?_, List.forall_mem_cons.mpr ⟨?_, List.forall_mem_cons.mpr ⟨?_, ?_⟩⟩⟩
      · rw [Std.HashSet.mem_insert, found_cons, beq_iff_eq, matched]
      · exact fun edge member => BuildGraph.target_mem_targets member
      · exact fun edge member => pending _ List.mem_cons_self edge (List.mem_cons_of_mem _ member)
      · exact fun frame member => pending frame (List.mem_cons_of_mem _ member)

/-- Every step spends some of the potential. -/
theorem potential_look_lt {before after : State N} (sound : Sound graph before)
    (look : Look graph before after) : potential graph after < potential graph before := by
  have paid : ∀ {matched : Std.HashSet N} {target : N}, target ∉ matched →
      target ∈ graph.targets →
      graph.reserve (· ∈ matched.insert target) (fun unit => (graph.edges unit).length + 1) +
          ((graph.edges target).length + 1) =
        graph.reserve (· ∈ matched) (fun unit => (graph.edges unit).length + 1) := by
    intro matched target new isTarget
    apply BuildGraph.reserve_add isTarget new
    intro unit
    rw [Std.HashSet.mem_insert, beq_iff_eq, eq_comm]
  cases look with
  | leave | pass => simp [potential]
  | mark _ _ _ _ new =>
      have free := paid new (sound.pending _ List.mem_cons_self _ List.mem_cons_self)
      simp only [potential, List.map_cons, List.sum_cons, List.length_cons]
      omega
  | enter _ _ _ new =>
      have free := paid new (sound.pending _ List.mem_cons_self _ List.mem_cons_self)
      simp only [potential, List.map_cons, List.sum_cons, List.length_cons]
      omega

theorem Sound.step {state : State N} (sound : Sound graph state) :
    Sound graph (step graph state) := by
  by_cases finished : state.stack = []
  · rwa [step_of_finished finished]
  · exact sound.look (look_step state finished)

theorem Sound.start (graph : BuildGraph N) (root : N) : Sound graph (State.start graph root) where
  matched unit := by simp [State.start, Found]
  pending := by
    intro frame member edge pending
    cases List.mem_singleton.mp member
    exact BuildGraph.target_mem_targets pending

/-- The budget covers the potential of a walk that starts. -/
theorem potential_start_le (graph : BuildGraph N) (root : N) :
    potential graph (State.start graph root) ≤ budget graph := by
  have looks : (graph.edges root).length +
      graph.reserve (· ∈ (State.start graph root).matched)
        (fun unit => (graph.edges unit).length) ≤ graph.edgeCount :=
    BuildGraph.reserve_degree_le (by simp [State.start])
  have leaves := graph.reserve_const_le (· ∈ (State.start graph root).matched) 1
  rw [potential, BuildGraph.reserve_add_cost, budget]
  simp only [State.start, List.map_cons, List.map_nil, List.sum_cons, List.sum_nil] at *
  omega

/-- The walk from a root is finished within its budget. -/
theorem stack_impactWithin (graph : BuildGraph N) (root : N) :
    (graph.impactWithin (budget graph) root).stack = [] := by
  rw [BuildGraph.impactWithin, run_eq_iterate]
  exact Search.finished_iterate (fun _ => step_of_finished) (fun _ => Sound.step)
    (fun state sound unfinished => potential_look_lt sound (look_step state unfinished))
    (budget graph) _ (Sound.start graph root) (potential_start_le graph root)

/-! ### The walk visits -/

/-- The pending edges of each frame are visited, the innermost frame first. -/
def Visits (graph : BuildGraph N) :
    List (Frame N) → List (Discovery N) → List (Discovery N) → Prop :=
  Search.InTurn fun frame => Visit graph frame.inChain frame.pending

omit [LawfulBEq N] in
/-- What is visited after a step, together with the step, is what was to be
visited before it. -/
theorem Visits.of_look {before after : State N} {final : List (Discovery N)}
    (sound : Sound graph before) (look : Look graph before after)
    (onward : Visits graph after.stack after.discoveries final) :
    Visits graph before.stack before.discoveries final := by
  have known := sound.matched
  cases look with
  | leave _ discoveries inChain =>
      exact ⟨discoveries, .done inChain discoveries, onward⟩
  | @pass _ edge inChain _ _ _ inert =>
      obtain ⟨middle, rest, outward⟩ := onward
      refine ⟨middle, ?_, outward⟩
      rcases inert with ignored | old
      · obtain ⟨target, kind⟩ := edge
        cases kind with
        | compile | reexport => cases ignored
        | runtime =>
            cases ignored
            exact .ignored rest
      · exact .known ((known edge.target).mp old) rest
  | mark _ _ _ _ new =>
      obtain ⟨middle, rest, outward⟩ := onward
      exact ⟨middle, .reexported (fun old => new ((known _).mpr old)) rest, outward⟩
  | @enter _ edge inChain discoveries _ _ new followed opens =>
      obtain ⟨entered, inner, middle, rest, outward⟩ := onward
      have unfound : ¬ Found discoveries edge.target := fun old => new ((known _).mpr old)
      refine ⟨middle, ?_, outward⟩
      obtain ⟨target, kind⟩ := edge
      cases kind with
      | compile => exact .compiled unfound inner rest
      | reexport => cases opens
      | runtime =>
          cases followed
          exact .needed unfound inner rest

/-- The walk from a root makes the discoveries of a visit of the root's edges. -/
theorem visit_impactWithin (graph : BuildGraph N) (root : N) :
    Visit graph false (graph.edges root) [⟨root, true⟩]
      (graph.impactWithin (budget graph) root).discoveries := by
  have finished := stack_impactWithin graph root
  rw [BuildGraph.impactWithin, run_eq_iterate] at finished ⊢
  have visits : Visits graph _ _ _ :=
    Search.InTurn.of_finished (fun _ => step_of_finished) (fun _ => Sound.step)
      (fun state _ sound unfinished => Visits.of_look sound (look_step state unfinished))
      (budget graph) _ (Sound.start graph root) finished
  obtain ⟨middle, visit, same⟩ := visits
  rw [← same]
  exact visit

/-- At the end of a walk the matched units are those discovered. -/
theorem mem_impact_iff (graph : BuildGraph N) (root unit : N) :
    unit ∈ graph.impact root ↔
      Found (graph.impactWithin (budget graph) root).discoveries unit := by
  have sound : Sound graph (graph.impactWithin (budget graph) root) := by
    rw [BuildGraph.impactWithin, run_eq_iterate]
    exact Search.holds_iterate (fun _ => Sound.step) _ (Sound.start graph root)
  exact sound.matched unit

end Impact

namespace BuildGraph

variable [LawfulBEq N]

open Impact in
/-- The impact walk ends, and its discoveries are those of the recursive walk:
the same units in the same order, with the same of them expanded.  No unit is
discovered, let alone expanded, twice, and the impact holds what was discovered. -/
theorem impact_refines_recursion (graph : BuildGraph N) (root : N) :
    let final := graph.impactWithin (budget graph) root
    final.stack = [] ∧
      (∀ discoveries, Visit graph false (graph.edges root) [⟨root, true⟩] discoveries ↔
        discoveries = final.discoveries) ∧
      (final.discoveries.map (·.unit)).Nodup ∧
      ∀ unit, unit ∈ graph.impact root ↔ Found final.discoveries unit := by
  intro final
  have visit := visit_impactWithin graph root
  refine ⟨stack_impactWithin graph root, fun discoveries => ⟨?_, ?_⟩, ?_, mem_impact_iff graph root⟩
  · exact fun other => other.functional visit
  · rintro rfl
    exact visit
  · exact visit.nodup (by simp)

/-- A graph in which `0` shows `1` before `2`, a compile dependency with a way
back to `0`, gets to expand it. -/
def shownFirst : BuildGraph Nat :=
  ofList
    [(0, [⟨1, .reexport⟩, ⟨2, .compile⟩]),
     (1, [⟨4, .compile⟩]),
     (2, [⟨1, .compile⟩, ⟨3, .runtime⟩, ⟨0, .compile⟩])]

/-- The walk leaves `1` alone for good, so `4` is never discovered. -/
theorem impact_refines_recursion_shownFirst :
    (shownFirst.impactWithin (Impact.budget shownFirst) 0).stack = [] ∧
      (shownFirst.impactWithin (Impact.budget shownFirst) 0).discoveries =
        [⟨3, true⟩, ⟨2, true⟩, ⟨1, false⟩, ⟨0, true⟩] := by
  have edges : shownFirst.edges 0 = [⟨1, .reexport⟩, ⟨2, .compile⟩] ∧
      shownFirst.edges 2 = [⟨1, .compile⟩, ⟨3, .runtime⟩, ⟨0, .compile⟩] ∧
      shownFirst.edges 3 = [] := by
    simp [shownFirst, ofList]
  have leaf (found : List (Impact.Discovery Nat)) :
      Impact.Visit shownFirst true (shownFirst.edges 3) found found := by
    rw [edges.2.2]
    exact .done true found
  have chain : Impact.Visit shownFirst true (shownFirst.edges 2)
      [⟨2, true⟩, ⟨1, false⟩, ⟨0, true⟩] [⟨3, true⟩, ⟨2, true⟩, ⟨1, false⟩, ⟨0, true⟩] := by
    rw [edges.2.1]
    exact .known (by simp [Impact.Found]) (.needed (by simp [Impact.Found]) (leaf _)
      (.known (by simp [Impact.Found]) (.done _ _)))
  obtain ⟨finished, recursion, _⟩ := impact_refines_recursion shownFirst 0
  refine ⟨finished, ((recursion _).mp ?_).symm⟩
  rw [edges.1]
  exact .reexported (by simp [Impact.Found])
    (.compiled (by simp [Impact.Found]) chain (.done _ _))

end BuildGraph

end BuildImpact
