/-
Module: BuildImpact.Proofs.Graph.Search
Layer: Proofs
Purpose: Searches that keep a stack of unfinished frames and step until it is empty.  A
  potential that every step lowers bounds their length.  What is done to the frames of
  a stack is done to one frame after another, the innermost first, which turns a
  finished run of a stack into a derivation for each of its frames.
Imports: Mathlib.Data.Nat.Find, Mathlib.Logic.Function.Iterate
Trusted boundary: none
Main exports: Search.holds_iterate, Search.finished_iterate, Search.exists_first_finished,
  Search.iterate_eq_of_finished, Search.InTurn, Search.InTurn.of_finished
Open obligations: none
-/
import Mathlib.Data.Nat.Find
import Mathlib.Logic.Function.Iterate

namespace BuildImpact

namespace Search

variable {State Frame Memory : Type} {step : State → State} {Sound : State → Prop}

/-- What holds of a start and is kept by every step holds at every time. -/
theorem holds_iterate (kept : ∀ state, Sound state → Sound (step state)) (count : Nat)
    {state : State} (start : Sound state) : Sound (step^[count] state) :=
  Function.Iterate.rec Sound start kept count

variable {stack : State → List Frame}

/-- A run that stops at an empty stack is the iterated step, as the step leaves
a finished search alone. -/
theorem run_eq_iterate {run : Nat → State → State}
    (fixed : ∀ state, stack state = [] → step state = state)
    (zero : ∀ state, run 0 state = state)
    (succ : ∀ fuel state, run (fuel + 1) state =
      match stack state with
      | [] => state
      | _ :: _ => run fuel (step state))
    (fuel : Nat) (state : State) : run fuel state = step^[fuel] state := by
  induction fuel generalizing state with
  | zero => exact zero state
  | succ fuel inductionHypothesis =>
      rw [succ, Function.iterate_succ_apply]
      split
      · rename_i finished
        rw [fixed state finished, Function.iterate_fixed (fixed state finished)]
      · exact inductionHypothesis (step state)

/-- A search whose steps lower a potential is finished after as many steps as
the potential says. -/
theorem finished_iterate {potential : State → Nat}
    (fixed : ∀ state, stack state = [] → step state = state)
    (kept : ∀ state, Sound state → Sound (step state))
    (lowered : ∀ state, Sound state → stack state ≠ [] →
      potential (step state) < potential state)
    (fuel : Nat) (state : State) (sound : Sound state) (enough : potential state ≤ fuel) :
    stack (step^[fuel] state) = [] := by
  induction fuel generalizing state with
  | zero =>
      by_contra unfinished
      have lower := lowered state sound unfinished
      omega
  | succ fuel inductionHypothesis =>
      by_cases finished : stack state = []
      · rwa [Function.iterate_fixed (fixed state finished)]
      · have lower := lowered state sound finished
        rw [Function.iterate_succ_apply]
        exact inductionHypothesis (step state) (kept state sound) (by omega)

/-- Steps beyond the end of a search change nothing. -/
theorem iterate_of_finished (fixed : ∀ state, stack state = [] → step state = state)
    {fuel larger : Nat} (enough : fuel ≤ larger) {state : State}
    (finished : stack (step^[fuel] state) = []) : step^[larger] state = step^[fuel] state := by
  obtain ⟨spare, rfl⟩ := Nat.exists_eq_add_of_le enough
  rw [Nat.add_comm, Function.iterate_add_apply, Function.iterate_fixed (fixed _ finished)]

/-- Of the numbers of steps after which a search is finished there is a least one. -/
theorem exists_first_finished (fixed : ∀ state, stack state = [] → step state = state)
    {fuel : Nat} {state : State} (finished : stack (step^[fuel] state) = []) :
    ∃ last ≤ fuel, (∀ fewer < last, stack (step^[fewer] state) ≠ []) ∧
      step^[last] state = step^[fuel] state := by
  classical
  have some : ∃ last, stack (step^[last] state) = [] := ⟨fuel, finished⟩
  have within := Nat.find_min' some finished
  refine ⟨Nat.find some, within, fun fewer => Nat.find_min some, ?_⟩
  exact (iterate_of_finished fixed within (Nat.find_spec some)).symm

/-- Two searches with the same steps wherever the first one comes go the same way. -/
theorem iterate_congr {other : State → State}
    (kept : ∀ state, Sound state → Sound (step state))
    (same : ∀ state, Sound state → other state = step state) (count : Nat) {state : State}
    (start : Sound state) : other^[count] state = step^[count] state := by
  induction count with
  | zero => rfl
  | succ count inductionHypothesis =>
      rw [Function.iterate_succ_apply', Function.iterate_succ_apply', inductionHypothesis,
        same _ (holds_iterate kept count start)]

/-- Two searches with the same steps wherever the first one comes, both finished
within budgets of their own, end in the same state. -/
theorem iterate_eq_of_finished {other : State → State}
    (fixed : ∀ state, stack state = [] → step state = state)
    (fixedOther : ∀ state, stack state = [] → other state = state)
    (kept : ∀ state, Sound state → Sound (step state))
    (same : ∀ state, Sound state → other state = step state) {fuel fuelOther : Nat}
    {state : State} (start : Sound state) (finished : stack (step^[fuel] state) = [])
    (finishedOther : stack (other^[fuelOther] state) = []) :
    other^[fuelOther] state = step^[fuel] state := by
  have common := iterate_congr kept same (max fuel fuelOther) start
  rwa [iterate_of_finished fixed (Nat.le_max_left _ _) finished,
    iterate_of_finished fixedOther (Nat.le_max_right _ _) finishedOther] at common

/-- The frames of a stack are done one after another: `Done frame before after`
says what doing one frame makes of a memory. -/
def InTurn (Done : Frame → Memory → Memory → Prop) : List Frame → Memory → Memory → Prop
  | [], before, after => before = after
  | frame :: frames, before, after =>
      ∃ middle, Done frame before middle ∧ InTurn Done frames middle after

/-- A run that empties its stack has done all of it, when what is done after a
step, together with the step, is what was to be done before it. -/
theorem InTurn.of_finished {memory : State → Memory} {Done : Frame → Memory → Memory → Prop}
    (fixed : ∀ state, stack state = [] → step state = state)
    (kept : ∀ state, Sound state → Sound (step state))
    (earlier : ∀ state final, Sound state → stack state ≠ [] →
      InTurn Done (stack (step state)) (memory (step state)) final →
      InTurn Done (stack state) (memory state) final)
    (count : Nat) (state : State) (sound : Sound state)
    (finished : stack (step^[count] state) = []) :
    InTurn Done (stack state) (memory state) (memory (step^[count] state)) := by
  induction count generalizing state with
  | zero =>
      rw [Function.iterate_zero_apply] at finished ⊢
      rw [finished]
      exact rfl
  | succ count inductionHypothesis =>
      by_cases done : stack state = []
      · rw [Function.iterate_fixed (fixed state done), done]
        exact rfl
      · rw [Function.iterate_succ_apply] at finished ⊢
        exact earlier state _ sound done
          (inductionHypothesis (step state) (kept state sound) finished)

end Search

end BuildImpact
