/-
Module: BuildImpact.Proofs.Layers.Steps
Layer: Proofs
Purpose: A layered walk visit by visit.  What visits and the change of layers keep holds
  after any number of visits, not only between two layers.  A run through whole layers is
  a number of visits, and once it has come to its end no further step changes anything.
Imports: Mathlib.Data.Nat.Find, BuildImpact.Proofs.Layers.Invariant
Trusted boundary: none
Main exports: Layers.Kept.step, Layers.Kept.steps, Layers.steps_add,
  Layers.exists_steps_eq_run, Layers.steps_of_finished, Layers.next_of_finished,
  Layers.Kept.exists_last_visit, Layers.exists_visits_eq_run
Open obligations: none
-/
import Mathlib.Data.Nat.Find
import BuildImpact.Proofs.Layers.Invariant

namespace BuildImpact

variable {N : Type} [BEq N] [Hashable N] {graph : BuildGraph N}

namespace Layers

variable {σ : Type} {visitor : Visitor N σ}

/-! ### Numbers of visits -/

theorem steps_add (first second : Nat) (state : State N σ) :
    steps graph visitor (first + second) state =
      steps graph visitor second (steps graph visitor first state) := by
  induction first generalizing state with
  | zero => rw [Nat.zero_add, steps]
  | succ first inductionHypothesis =>
      rw [Nat.succ_add, steps, steps, inductionHypothesis]

/-- One visit more is a visit at the end. -/
theorem steps_succ (count : Nat) (state : State N σ) :
    steps graph visitor (count + 1) state =
      step graph visitor (steps graph visitor count state) :=
  steps_add count 1 state

/-- A finished walk stays as it is. -/
theorem step_of_finished {state : State N σ} (finished : state.current = []) :
    step graph visitor state = state := by
  rw [step, finished]

theorem steps_of_finished {state : State N σ} (finished : state.current = []) (count : Nat) :
    steps graph visitor count state = state := by
  induction count with
  | zero => rfl
  | succ count inductionHypothesis =>
      rw [steps_succ, inductionHypothesis, step_of_finished finished]

/-- A walk through whole layers is a number of visits. -/
theorem exists_steps_eq_run (layers : Nat) (state : State N σ) :
    ∃ count, run graph visitor layers state = steps graph visitor count state := by
  induction layers generalizing state with
  | zero => exact ⟨0, rfl⟩
  | succ layers inductionHypothesis =>
      rw [run]
      cases waits : state.current with
      | nil => exact ⟨0, rfl⟩
      | cons arrival waiting =>
          obtain ⟨count, same⟩ := inductionHypothesis
            (steps graph visitor (arrival :: waiting).length state)
          refine ⟨(arrival :: waiting).length + count, ?_⟩
          rw [steps_add]
          exact same

/-- Of the visits after which a walk is finished there is a first one. -/
theorem exists_first_finished {count : Nat} {state : State N σ}
    (finished : (steps graph visitor count state).current = []) :
    ∃ last, (∀ fewer < last, (steps graph visitor fewer state).current ≠ []) ∧
      steps graph visitor last state = steps graph visitor count state := by
  classical
  have some : ∃ last, (steps graph visitor last state).current = [] := ⟨count, finished⟩
  refine ⟨Nat.find some, fun fewer => Nat.find_min some, ?_⟩
  obtain ⟨further, rfl⟩ := Nat.exists_eq_add_of_le (Nat.find_min' some finished)
  rw [steps_add, steps_of_finished (Nat.find_spec some)]

/-- A step does not leave a layer to come behind an empty one. -/
theorem next_step {state : State N σ} (settled : state.current = [] → state.next = [])
    (finished : (step graph visitor state).current = []) :
    (step graph visitor state).next = [] := by
  obtain ⟨current, next, memory⟩ := state
  match current with
  | [] => exact settled rfl
  | [_] => rfl
  | _ :: _ :: _ => cases finished

/-- When a layer is done, the next one has taken its place, so that nothing is left of a
walk without a layer at hand. -/
theorem next_of_finished {start : N} {memory : σ} (count : Nat) :
    (steps graph visitor count (.start start memory)).current = [] →
      (steps graph visitor count (.start start memory)).next = [] := by
  induction count with
  | zero => exact fun _ => rfl
  | succ count inductionHypothesis =>
      rw [steps_succ]
      exact next_step inductionHypothesis

/-! ### What visits keep -/

namespace Kept

variable {Holds : Nat → List (Arrival N) → List (Arrival N) → σ → Prop}

/-- What is kept holds after a step, in the layer at hand or at the beginning of the
next one. -/
theorem step (kept : Kept graph visitor Holds) {depth : Nat} {state : State N σ}
    (holds : Holds depth state.current state.next state.memory) :
    ∃ reached, Holds reached (step graph visitor state).current
      (step graph visitor state).next (step graph visitor state).memory := by
  obtain ⟨current, next, memory⟩ := state
  match current with
  | [] => exact ⟨depth, holds⟩
  | [_] => exact ⟨depth + 1, kept.change (kept.visit holds)⟩
  | _ :: _ :: _ => exact ⟨depth, kept.visit holds⟩

/-- What is kept holds after every number of visits. -/
theorem steps (kept : Kept graph visitor Holds) (count : Nat) {depth : Nat} {state : State N σ}
    (holds : Holds depth state.current state.next state.memory) :
    ∃ reached, Holds reached (steps graph visitor count state).current
      (steps graph visitor count state).next (steps graph visitor count state).memory := by
  induction count with
  | zero => exact ⟨depth, holds⟩
  | succ count inductionHypothesis =>
      obtain ⟨reached, earlier⟩ := inductionHypothesis
      rw [steps_succ]
      exact kept.step earlier

/-- A walk that stays within its budget has a last visit, after which both layers are
empty and the memory is that of the whole walk. -/
theorem exists_last_visit (kept : Kept graph visitor Holds) {start : N} {memory : σ}
    (begins : Holds 0 [⟨start, none, 0⟩] [] memory)
    (shallow : ∀ {depth : Nat} {arrival : Arrival N} {waiting : List (Arrival N)} {memory : σ},
      Holds depth (arrival :: waiting) [] memory → depth < budget graph) :
    ∃ count,
      (∀ fewer < count,
        (Layers.steps graph visitor fewer (State.start start memory)).current ≠ []) ∧
      Layers.steps graph visitor count (State.start start memory) =
        ⟨[], [], Layers.walk graph visitor start memory⟩ := by
  obtain ⟨reached, final, _, ran⟩ := kept.ends begins shallow
  obtain ⟨visits, same⟩ : ∃ visits, Layers.run graph visitor (budget graph) (.start start memory) =
      Layers.steps graph visitor visits (.start start memory) :=
    exists_steps_eq_run (budget graph) _
  have finished : (Layers.steps graph visitor visits (State.start start memory)).current = [] := by
    rw [← same, ran]
  obtain ⟨last, unfinished, atEnd⟩ := exists_first_finished finished
  refine ⟨last, unfinished, ?_⟩
  rw [atEnd, ← same, Layers.walk, ran]

end Kept

/-! ### Visits and whole layers -/

/-- The layer at hand has one depth and the layer to come the depth after it, whatever is
followed. -/
theorem kept_depth (graph : BuildGraph N) (visitor : Visitor N σ) :
    Kept graph visitor fun depth current next _ =>
      (∀ arrival ∈ current, arrival.depth = depth) ∧
        ∀ arrival ∈ next, arrival.depth = depth + 1 where
  visit := by
    rintro depth arrival waiting next memory ⟨atDepth, ahead⟩
    rw [List.forall_mem_cons] at atDepth
    refine ⟨atDepth.2, follow_induction
      (fun _ next _ => ∀ arrival ∈ next, arrival.depth = depth + 1) ?taken ?refused ahead⟩
    case taken =>
      intro edge _ next _ _ _ ahead
      exact List.forall_mem_cons.mpr ⟨congrArg (· + 1) atDepth.1, ahead⟩
    case refused => exact fun _ ahead => ahead
  change := fun ⟨_, ahead⟩ =>
    ⟨fun arrival member => ahead arrival (List.mem_reverse.mp member), nofun⟩

/-- Within a layer the arrivals are visited in turn. -/
theorem current_steps_of_lt {count : Nat} {state : State N σ}
    (less : count < state.current.length) :
    (steps graph visitor count state).current = state.current.drop count := by
  induction count generalizing state with
  | zero => rfl
  | succ count inductionHypothesis =>
      obtain ⟨current, next, memory⟩ := state
      match current with
      | [] => cases less
      | [_] => exact absurd less (Nat.not_lt.mpr (Nat.succ_le_succ count.zero_le))
      | _ :: following :: waiting =>
          rw [steps, inductionHypothesis]
          · rfl
          · exact Nat.lt_of_succ_lt_succ less

/-- A walk through whole layers visits the arrivals above some depth and no others. -/
theorem exists_visits_eq_run (graph : BuildGraph N) (visitor : Visitor N σ) (layers : Nat)
    {depth : Nat} {current : List (Arrival N)} (memory : σ)
    (atDepth : ∀ arrival ∈ current, arrival.depth = depth) :
    ∃ visits last final,
      run graph visitor layers ⟨current, [], memory⟩ = ⟨last, [], final⟩ ∧
      steps graph visitor visits ⟨current, [], memory⟩ = ⟨last, [], final⟩ ∧
      (∀ arrival ∈ last, arrival.depth = depth + layers) ∧
      ∀ fewer < visits,
        ∃ arrival ∈ (steps graph visitor fewer ⟨current, [], memory⟩).current.head?,
          arrival.depth < depth + layers := by
  induction layers generalizing depth current memory with
  | zero => exact ⟨0, current, memory, rfl, rfl, atDepth, nofun⟩
  | succ layers inductionHypothesis =>
      cases current with
      | nil => exact ⟨0, [], memory, rfl, rfl, nofun, nofun⟩
      | cons arrival waiting =>
          have whole : ∃ following after, ((∀ arrival ∈ following, arrival.depth = depth + 1) ∧ _) ∧
              steps graph visitor (arrival :: waiting).length ⟨arrival :: waiting, [], memory⟩ =
                ⟨following, [], after⟩ :=
            (kept_depth graph visitor).layer ⟨atDepth, nofun⟩
          obtain ⟨following, after, ⟨below, -⟩, layer⟩ := whole
          obtain ⟨visits, last, final, ran, ends, deep, early⟩ := inductionHypothesis after below
          rw [Nat.add_right_comm, Nat.add_assoc] at deep early
          refine ⟨(arrival :: waiting).length + visits, last, final, ?_, ?_, deep, ?_⟩
          · rw [run]
            simp only [layer, ran]
          · rw [steps_add, layer, ends]
          · intro fewer isFewer
            rcases Nat.lt_or_ge fewer (arrival :: waiting).length with inside | beyond
            · rw [current_steps_of_lt inside, List.head?_drop, List.getElem?_eq_getElem inside]
              refine ⟨_, rfl, ?_⟩
              rw [atDepth _ (List.getElem_mem inside)]
              omega
            · obtain ⟨further, rfl⟩ := Nat.exists_eq_add_of_le beyond
              rw [steps_add, layer]
              exact early further (Nat.lt_of_add_lt_add_left isFewer)

end Layers

end BuildImpact
