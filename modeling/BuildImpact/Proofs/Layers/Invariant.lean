/-
Module: BuildImpact.Proofs.Layers.Invariant
Layer: Proofs
Purpose: The rule by which something is proved of a layered walk.  What a single visit
  keeps within a layer, and the change to the next layer keeps with the depth increased,
  holds where the walk ends, for every visitor.
Imports: BuildImpact.Graph.Layers
Trusted boundary: none
Main exports: Layers.visit, Layers.Kept, Layers.Kept.run, Layers.Kept.ends,
  Layers.Kept.walk, Layers.follow_induction
Open obligations: none
-/
import BuildImpact.Graph.Layers

namespace BuildImpact

variable {N : Type} [BEq N] [Hashable N] {graph : BuildGraph N}

namespace Layers

variable {σ : Type} {visitor : Visitor N σ}

/-- A whole visit: the memory takes note of the arrival, then the edges of the
unit are looked at. -/
def visit (graph : BuildGraph N) (visitor : Visitor N σ) (arrival : Arrival N)
    (next : List (Arrival N)) (memory : σ) : List (Arrival N) × σ :=
  follow visitor arrival (graph.edges arrival.unit) next (visitor.arrive memory arrival)

/-- A statement about the depth of the layer at hand, the rest of it, the layer
after it and the memory that visits keep, and that the change of layers keeps
for the depth after it. -/
structure Kept (graph : BuildGraph N) (visitor : Visitor N σ)
    (Holds : Nat → List (Arrival N) → List (Arrival N) → σ → Prop) : Prop where
  visit : ∀ {depth : Nat} {arrival : Arrival N} {waiting next : List (Arrival N)} {memory : σ},
    Holds depth (arrival :: waiting) next memory →
      Holds depth waiting (visit graph visitor arrival next memory).1
        (visit graph visitor arrival next memory).2
  change : ∀ {depth : Nat} {next : List (Arrival N)} {memory : σ},
    Holds depth [] next memory → Holds (depth + 1) next.reverse [] memory

namespace Kept

variable {Holds : Nat → List (Arrival N) → List (Arrival N) → σ → Prop}

/-- What is kept holds at the beginning of the next layer. -/
theorem layer (kept : Kept graph visitor Holds) {depth : Nat} {arrival : Arrival N}
    {waiting next : List (Arrival N)} {memory : σ}
    (holds : Holds depth (arrival :: waiting) next memory) :
    ∃ current memory', Holds (depth + 1) current [] memory' ∧
      steps graph visitor (arrival :: waiting).length ⟨arrival :: waiting, next, memory⟩ =
        ⟨current, [], memory'⟩ := by
  induction waiting generalizing arrival next memory with
  | nil => exact ⟨_, _, kept.change (kept.visit holds), rfl⟩
  | cons following waiting inductionHypothesis => exact inductionHypothesis (kept.visit holds)

/-- What is kept holds where a run ends, with an empty layer or after as many
layers as it may take. -/
theorem run (kept : Kept graph visitor Holds) (layers : Nat) {depth : Nat}
    {current : List (Arrival N)} {memory : σ} (holds : Holds depth current [] memory) :
    ∃ reached last memory', Holds reached last [] memory' ∧
      (last = [] ∨ reached = depth + layers) ∧
      run graph visitor layers ⟨current, [], memory⟩ = ⟨last, [], memory'⟩ := by
  induction layers generalizing depth current memory with
  | zero => exact ⟨depth, current, memory, holds, .inr rfl, rfl⟩
  | succ layers inductionHypothesis =>
      cases current with
      | nil => exact ⟨depth, [], memory, holds, .inl rfl, rfl⟩
      | cons arrival waiting =>
          obtain ⟨current, memory', holds, same⟩ := kept.layer holds
          obtain ⟨reached, last, final, holds, stop, ran⟩ := inductionHypothesis holds
          refine ⟨reached, last, final, holds, stop.imp_right ?_, ?_⟩
          · intro all
            omega
          · rw [Layers.run]
            simp only [same, ran]

/-- A run within the budget ends with nothing left to visit, and what is kept holds
there, when no layer as deep as the budget has an arrival. -/
theorem ends (kept : Kept graph visitor Holds) {start : N} {memory : σ}
    (begins : Holds 0 [⟨start, none, 0⟩] [] memory)
    (shallow : ∀ {depth : Nat} {arrival : Arrival N} {waiting : List (Arrival N)} {memory : σ},
      Holds depth (arrival :: waiting) [] memory → depth < budget graph) :
    ∃ reached final, Holds reached [] [] final ∧
      Layers.run graph visitor (budget graph) (State.start start memory) = ⟨[], [], final⟩ := by
  obtain ⟨reached, last, final, holds, stop, ran⟩ := kept.run (budget graph) begins
  cases last with
  | nil => exact ⟨reached, final, holds, ran⟩
  | cons arrival waiting =>
      have deep : reached = 0 + budget graph := stop.resolve_left (List.cons_ne_nil _ _)
      have bound := shallow holds
      omega

/-- What is kept holds at the end of a walk, with nothing left to visit, when no
layer as deep as the budget has an arrival. -/
theorem walk (kept : Kept graph visitor Holds) {start : N} {memory : σ}
    (begins : Holds 0 [⟨start, none, 0⟩] [] memory)
    (shallow : ∀ {depth : Nat} {arrival : Arrival N} {waiting : List (Arrival N)} {memory : σ},
      Holds depth (arrival :: waiting) [] memory → depth < budget graph) :
    ∃ reached, Holds reached [] [] (walk graph visitor start memory) := by
  obtain ⟨reached, final, holds, ran⟩ := kept.ends begins shallow
  refine ⟨reached, ?_⟩
  rwa [Layers.walk, ran]

/-- Behind an empty layer there are only empty layers. -/
theorem beyond (kept : Kept graph visitor Holds) {depth : Nat} {memory : σ}
    (holds : Holds depth [] [] memory) (further : Nat) : Holds (depth + further) [] [] memory := by
  induction further with
  | zero => exact holds
  | succ further inductionHypothesis => exact kept.change inductionHypothesis

end Kept

omit [BEq N] [Hashable N] in
/-- A statement about the edges still to be looked at, the layer to come and the
memory that every edge keeps holds after all of them. -/
theorem follow_induction (Holds : List (Edge N) → List (Arrival N) → σ → Prop)
    {arrival : Arrival N}
    (taken : ∀ {edge edges next memory memory'},
      visitor.takes memory arrival edge = (true, memory') → Holds (edge :: edges) next memory →
        Holds edges (⟨edge.target, some arrival.unit, arrival.depth + 1⟩ :: next) memory')
    (refused : ∀ {edge edges next memory memory'},
      visitor.takes memory arrival edge = (false, memory') → Holds (edge :: edges) next memory →
        Holds edges next memory')
    {edges : List (Edge N)} {next : List (Arrival N)} {memory : σ}
    (start : Holds edges next memory) :
    Holds [] (follow visitor arrival edges next memory).1
      (follow visitor arrival edges next memory).2 := by
  induction edges generalizing next memory with
  | nil => exact start
  | cons edge edges inductionHypothesis =>
      rw [follow]
      split
      · rename_i decided
        exact inductionHypothesis (taken decided start)
      · rename_i decided
        exact inductionHypothesis (refused decided start)

end Layers

end BuildImpact
