/-
Module: BuildImpact.Proofs.Layers.Queue
Layer: Proofs
Purpose: The walk in layers is the walk with a single queue.  The rest of the layer at hand
  and the layer to come, one behind the other, are the queue, so both walks ask the same of
  every visitor in the same order, whether or not they come to an end.
Imports: BuildImpact.Proofs.Graph.Edges, BuildImpact.Proofs.Layers.Transcript
Trusted boundary: none
Main exports: Layers.Queue, Layers.Queue.step, Layers.Queue.steps, Layers.queue_step,
  Layers.queue_steps, Layers.walk_as_queue
Open obligations: none
-/
import BuildImpact.Proofs.Graph.Edges
import BuildImpact.Proofs.Layers.Transcript

namespace BuildImpact

variable {N : Type} [BEq N] [Hashable N] {graph : BuildGraph N}

namespace Layers

variable {σ : Type} {visitor : Visitor N σ}

/-! ### A single queue -/

/-- A breadth-first walk between two visits: the arrivals that wait, first come first served,
and the memory of the visitor. -/
structure Queue (N σ : Type) where
  waiting : List (Arrival N)
  memory : σ

namespace Queue

def start (unit : N) (memory : σ) : Queue N σ := ⟨[⟨unit, none, 0⟩], memory⟩

/-- Look at an edge of the unit at hand.  If it is followed, its target goes to the end of
the queue. -/
def look (visitor : Visitor N σ) (arrival : Arrival N) (queue : Queue N σ) (edge : Edge N) :
    Queue N σ :=
  match visitor.takes queue.memory arrival edge with
  | (true, memory) => ⟨queue.waiting ++ [arrival.along edge], memory⟩
  | (false, memory) => ⟨queue.waiting, memory⟩

/-- Visit the first in the queue, and look at all its edges. -/
def step (graph : BuildGraph N) (visitor : Visitor N σ) (queue : Queue N σ) : Queue N σ :=
  match queue.waiting with
  | [] => queue
  | arrival :: waiting =>
    (graph.edges arrival.unit).foldl (look visitor arrival)
      ⟨waiting, visitor.arrive queue.memory arrival⟩

/-- Exactly `count` visits, or fewer when the queue is empty before. -/
def steps (graph : BuildGraph N) (visitor : Visitor N σ) : Nat → Queue N σ → Queue N σ
  | 0, queue => queue
  | count + 1, queue => step graph visitor (steps graph visitor count queue)

end Queue

/-! ### Layers as a queue -/

/-- The layer to come stands behind the layer at hand. -/
def State.queue (state : State N σ) : Queue N σ :=
  ⟨state.current ++ state.next.reverse, state.memory⟩

omit [BEq N] [Hashable N] in
/-- Followed edges put their targets at the end of the queue. -/
theorem foldl_look (visitor : Visitor N σ) (arrival : Arrival N) (edges : List (Edge N))
    (waiting next : List (Arrival N)) (memory : σ) :
    edges.foldl (Queue.look visitor arrival) ⟨waiting ++ next.reverse, memory⟩ =
      ⟨waiting ++ (follow visitor arrival edges next memory).1.reverse,
        (follow visitor arrival edges next memory).2⟩ := by
  induction edges generalizing next memory with
  | nil => rfl
  | cons edge edges inductionHypothesis =>
      rw [List.foldl_cons, Queue.look, follow]
      rcases visitor.takes memory arrival edge with ⟨taken, kept⟩
      cases taken with
      | false => exact inductionHypothesis next kept
      | true =>
          -- The layer to come is kept in reverse: its head is the end of the queue.
          have atEnd := inductionHypothesis (arrival.along edge :: next) kept
          rw [List.reverse_cons, ← List.append_assoc] at atEnd
          exact atEnd

/-- One visit is the same in both walks, and the change of layers moves nothing. -/
theorem queue_step {state : State N σ} (settled : state.current = [] → state.next = []) :
    (step graph visitor state).queue = Queue.step graph visitor state.queue := by
  obtain ⟨current, next, memory⟩ := state
  match current with
  | [] =>
      obtain rfl : next = [] := settled rfl
      rfl
  | [arrival] =>
      have looked := foldl_look visitor arrival (graph.edges arrival.unit) [] next
        (visitor.arrive memory arrival)
      simpa [State.queue, step, Queue.step] using looked.symm
  | arrival :: following :: waiting =>
      exact (foldl_look visitor arrival (graph.edges arrival.unit) (following :: waiting) next
        (visitor.arrive memory arrival)).symm

theorem queue_steps (start : N) (memory : σ) (count : Nat) :
    (steps graph visitor count (.start start memory)).queue =
      Queue.steps graph visitor count (.start start memory) := by
  induction count with
  | zero => rfl
  | succ count inductionHypothesis =>
      rw [steps_succ, Queue.steps, ← inductionHypothesis]
      exact queue_step (next_of_finished count)

/-- The walk in layers makes the same calls as the walk with a single queue, whatever the
visitor remembers and decides: after any number of visits the transcripts and the memories
are the same, and the two layers, one behind the other, are the queue.  The layer at hand has
one depth and the layer to come the depth after it; if nothing is left of the one, nothing
is in the other.  So the visits come in the order of their depths, and what was found for
each followed edge is visited or waits, first come first served: nothing is lost and nothing
visited twice.  The transcripts change nothing.  A walk with a budget makes the visits above
this depth and no others: it stops where the queue is empty, or where the first that waits is
as deep as the budget. -/
theorem walk_as_queue (graph : BuildGraph N) (visitor : Visitor N σ) (start : N) (memory : σ) :
    let layered := transcript graph visitor start memory
    let queue := fun visits =>
      Queue.steps graph (transcribed visitor) visits (.start start (memory, []))
    (∀ visits, (layered visits).memory = (queue visits).memory ∧
      (layered visits).current ++ (layered visits).next.reverse = (queue visits).waiting) ∧
    (∀ visits, ∃ depth, (∀ arrival ∈ (layered visits).current, arrival.depth = depth) ∧
      ∀ arrival ∈ (layered visits).next, arrival.depth = depth + 1) ∧
    (∀ visits, (layered visits).current = [] → (layered visits).next = []) ∧
    (∀ visits, (visited (layered visits).memory.2).Pairwise (·.depth ≤ ·.depth) ∧
      found start (layered visits).memory.2 =
        visited (layered visits).memory.2 ++ (queue visits).waiting) ∧
    (∀ visits index arrival, (found start (layered visits).memory.2)[index]? = some arrival →
      (layered index).current.head? = some arrival) ∧
    (∀ visits, (layered visits).part Prod.fst =
      steps graph visitor visits (.start start memory)) ∧
    ∃ visits, walk graph visitor start memory =
        (Queue.steps graph visitor visits (.start start memory)).memory ∧
      (∀ arrival ∈ (Queue.steps graph visitor visits (.start start memory)).waiting,
        arrival.depth = budget graph) ∧
      ∀ fewer < visits,
        ∃ arrival ∈ (Queue.steps graph visitor fewer (.start start memory)).waiting.head?,
          arrival.depth < budget graph := by
  intro layered queue
  have same (visits : Nat) : (layered visits).queue = queue visits :=
    queue_steps start (memory, []) visits
  have waiting (visits : Nat) :
      (layered visits).current ++ (layered visits).next.reverse = (queue visits).waiting :=
    congrArg Queue.waiting (same visits)
  refine ⟨fun visits => ⟨congrArg Queue.memory (same visits), waiting visits⟩, fun visits => ?_,
    fun visits => next_of_finished visits, fun visits => ?_,
    fun visits index arrival among => head?_of_found memory among,
    fun visits => part_transcript memory visits, ?_⟩
  · obtain ⟨depth, account⟩ := exists_account graph visitor start memory visits
    exact ⟨depth, account.atDepth, account.ahead⟩
  · obtain ⟨_, account⟩ := exists_account graph visitor start memory visits
    refine ⟨account.sorted, ?_⟩
    rw [← waiting, ← List.append_assoc]
    exact account.queued
  · have atStart : ∀ arrival ∈ [(⟨start, none, 0⟩ : Arrival N)], arrival.depth = 0 :=
      List.forall_mem_singleton.mpr rfl
    obtain ⟨visits, last, final, ran, ends, deep, early⟩ :=
      exists_visits_eq_run graph visitor (budget graph) memory atStart
    simp only [Nat.zero_add] at deep early
    simp only [← queue_steps]
    refine ⟨visits, ?_, ?_, fun fewer isFewer => ?_⟩
    · rw [walk, State.start, ran, ends]
      rfl
    · rw [State.start, ends]
      simpa [State.queue] using deep
    · obtain ⟨arrival, isFirst, above⟩ := early fewer isFewer
      refine ⟨arrival, ?_, above⟩
      rw [State.queue, List.head?_append, State.start, Option.mem_def.mp isFirst]
      rfl

/-- A graph in which every unit leads back to `0`, and `2` to itself. -/
def carousel : BuildGraph Nat :=
  .ofList [(0, [⟨1, .compile⟩, ⟨2, .runtime⟩]), (1, [⟨0, .runtime⟩]),
    (2, [⟨0, .reexport⟩, ⟨2, .compile⟩])]

/-- A visitor that counts the visits and follows every edge, so that no walk on a cycle
ends. -/
def restless : Visitor Nat Nat where
  arrive count _ := count + 1
  takes count _ _ := (true, count)

theorem edges_carousel :
    carousel.edges 0 = [⟨1, .compile⟩, ⟨2, .runtime⟩] ∧ carousel.edges 1 = [⟨0, .runtime⟩] ∧
      carousel.edges 2 = [⟨0, .reexport⟩, ⟨2, .compile⟩] ∧ carousel.edges 9 = [] := by
  simp [carousel, BuildGraph.edges_ofList]

/-- Of the walk that does not end, the arrival that `2` is the second to find at `0` has its
turn after four visits, the walk from a lone unit is over after one, and both make the calls
of the walk with a queue. -/
theorem walk_as_queue_restless :
    (transcript carousel restless 0 0 4).current.head? = some ⟨0, some 2, 2⟩ ∧
      (transcript carousel restless 9 0 1).next = [] ∧
      (transcript carousel restless 0 0 5).memory =
        (Queue.steps carousel (transcribed restless) 5 (.start 0 (0, []))).memory := by
  obtain ⟨first, second, third, none⟩ := edges_carousel
  obtain ⟨calls, _, _, _, served, _⟩ := walk_as_queue carousel restless 0 0
  obtain ⟨_, _, settled, _⟩ := walk_as_queue carousel restless 9 0
  refine ⟨served 3 4 _ ?_, settled 1 ?_, (calls 5).1⟩
  · simp [transcript, steps, step, follow, State.start, transcribed, restless, found,
      List.filterMap_cons, Call.found?, Arrival.along, first, second, third]
  · simp [transcript, steps, step, follow, State.start, transcribed, restless, none]

end Layers

end BuildImpact
