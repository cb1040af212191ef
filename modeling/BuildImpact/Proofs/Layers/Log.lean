/-
Module: BuildImpact.Proofs.Layers.Log
Layer: Proofs
Purpose: The visits of a layered walk.  A visitor that remembers more, but decides alike,
  takes the same walk.  One that writes every arrival into a log is such a visitor, so
  what is proved of the log is proved of the walk.
Imports: BuildImpact.Proofs.Layers.Invariant
Trusted boundary: none
Main exports: Layers.Shows, Layers.Shows.steps, Layers.Shows.run, Layers.logged,
  Layers.visits, Layers.visit_logged, Layers.shows_logged, Layers.fst_walk_logged
Open obligations: none
-/
import BuildImpact.Proofs.Layers.Invariant

namespace BuildImpact

variable {N : Type} [BEq N] [Hashable N] {graph : BuildGraph N}

namespace Layers

variable {σ : Type} {visitor : Visitor N σ}

/-! ### Visitors that remember more -/

/-- Whether `wide` takes note and decides as `narrow` does, whose memory is the part of its
own that `part` shows. -/
structure Shows {τ : Type} (wide : Visitor N τ) (narrow : Visitor N σ) (part : τ → σ) : Prop where
  arrive : ∀ memory arrival, part (wide.arrive memory arrival) = narrow.arrive (part memory) arrival
  takes : ∀ memory arrival edge,
    ((wide.takes memory arrival edge).1, part (wide.takes memory arrival edge).2) =
      narrow.takes (part memory) arrival edge

/-- A walk with a part of what it remembers. -/
def State.part {τ : Type} (part : τ → σ) (state : State N τ) : State N σ :=
  ⟨state.current, state.next, part state.memory⟩

namespace Shows

variable {τ : Type} {wide : Visitor N τ} {narrow : Visitor N σ} {part : τ → σ}

omit [BEq N] [Hashable N] in
theorem follow (shows : Shows wide narrow part) (arrival : Arrival N) (edges : List (Edge N))
    (next : List (Arrival N)) (memory : τ) :
    ((Layers.follow wide arrival edges next memory).1,
        part (Layers.follow wide arrival edges next memory).2) =
      Layers.follow narrow arrival edges next (part memory) := by
  induction edges generalizing next memory with
  | nil => rfl
  | cons edge edges inductionHypothesis =>
      rw [Layers.follow, Layers.follow, ← shows.takes]
      cases wide.takes memory arrival edge with
      | mk taken kept => cases taken <;> exact inductionHypothesis _ _

theorem visit (shows : Shows wide narrow part) (arrival : Arrival N) (next : List (Arrival N))
    (memory : τ) :
    ((Layers.visit graph wide arrival next memory).1,
        part (Layers.visit graph wide arrival next memory).2) =
      Layers.visit graph narrow arrival next (part memory) := by
  rw [Layers.visit, Layers.visit, shows.follow, shows.arrive]

/-- But for what is remembered beside it the steps are the same. -/
theorem step (shows : Shows wide narrow part) (state : State N τ) :
    (Layers.step graph wide state).part part = Layers.step graph narrow (state.part part) := by
  obtain ⟨current, next, memory⟩ := state
  match current with
  | [] => rfl
  | [arrival] =>
      exact congrArg (fun after => (⟨after.1.reverse, [], after.2⟩ : State N σ))
        (shows.visit arrival next memory)
  | arrival :: following :: waiting =>
      exact congrArg (fun after => (⟨following :: waiting, after.1, after.2⟩ : State N σ))
        (shows.visit arrival next memory)

theorem steps (shows : Shows wide narrow part) (count : Nat) (state : State N τ) :
    (Layers.steps graph wide count state).part part =
      Layers.steps graph narrow count (state.part part) := by
  induction count generalizing state with
  | zero => rfl
  | succ count inductionHypothesis =>
      rw [Layers.steps, Layers.steps, inductionHypothesis, shows.step]

theorem run (shows : Shows wide narrow part) (layers : Nat) (state : State N τ) :
    (Layers.run graph wide layers state).part part =
      Layers.run graph narrow layers (state.part part) := by
  induction layers generalizing state with
  | zero => rfl
  | succ layers inductionHypothesis =>
      obtain ⟨current, next, memory⟩ := state
      cases current with
      | nil => rfl
      | cons arrival waiting =>
          exact (inductionHypothesis _).trans
            (congrArg (Layers.run graph narrow layers) (shows.steps _ _))

end Shows

/-! ### The log -/

/-- The visitor with a log of the units that had their turn, the latest first. -/
def logged (visitor : Visitor N σ) : Visitor N (σ × List (Arrival N)) where
  arrive memory arrival := (visitor.arrive memory.1 arrival, arrival :: memory.2)
  takes memory arrival edge :=
    ((visitor.takes memory.1 arrival edge).1, (visitor.takes memory.1 arrival edge).2, memory.2)

/-- The visits of a walk, the latest first. -/
def visits (graph : BuildGraph N) (visitor : Visitor N σ) (start : N) (memory : σ) :
    List (Arrival N) :=
  (walk graph (logged visitor) start (memory, [])).2

omit [BEq N] [Hashable N] in
theorem follow_logged (arrival : Arrival N) (edges : List (Edge N)) (next : List (Arrival N))
    (memory : σ) (log : List (Arrival N)) :
    follow (logged visitor) arrival edges next (memory, log) =
      ((follow visitor arrival edges next memory).1,
        (follow visitor arrival edges next memory).2, log) := by
  induction edges generalizing next memory with
  | nil => rfl
  | cons edge edges inductionHypothesis =>
      have decision : (logged visitor).takes (memory, log) arrival edge =
          ((visitor.takes memory arrival edge).1, (visitor.takes memory arrival edge).2, log) := rfl
      rw [follow, follow, decision]
      cases visitor.takes memory arrival edge with
      | mk taken kept => cases taken <;> exact inductionHypothesis _ _

/-- A visit is logged, and does the same otherwise. -/
theorem visit_logged (arrival : Arrival N) (next : List (Arrival N)) (memory : σ)
    (log : List (Arrival N)) :
    visit graph (logged visitor) arrival next (memory, log) =
      ((visit graph visitor arrival next memory).1,
        (visit graph visitor arrival next memory).2, arrival :: log) :=
  follow_logged arrival (graph.edges arrival.unit) next _ _

omit [BEq N] [Hashable N] in
theorem shows_logged (visitor : Visitor N σ) : Shows (logged visitor) visitor Prod.fst :=
  ⟨fun _ _ => rfl, fun _ _ _ => rfl⟩

/-- A walk remembers the same with a log and without it. -/
theorem fst_walk_logged (start : N) (memory : σ) :
    (walk graph (logged visitor) start (memory, [])).1 = walk graph visitor start memory :=
  congrArg State.memory
    ((shows_logged visitor).run (budget graph) (State.start start (memory, [])))

end Layers

end BuildImpact
