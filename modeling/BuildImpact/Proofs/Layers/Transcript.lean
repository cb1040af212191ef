/-
Module: BuildImpact.Proofs.Layers.Transcript
Layer: Proofs
Purpose: What a layered walk asks of its visitor, call by call.  A visitor that writes a
  transcript of its calls takes the same walk as without it.  Whatever the visitor decides,
  a layer holds arrivals of one depth and the layer to come those of the depth after it, the
  visits come in the order of their depths, and the arrivals found so far are those visited,
  in the order of their visits, with those that wait behind them.
Imports: BuildImpact.Proofs.Layers.Log, BuildImpact.Proofs.Layers.Steps
Trusted boundary: none
Main exports: Layers.Call, Layers.transcribed, Layers.visited, Layers.found,
  Layers.shows_transcribed, Layers.Account, Layers.kept_account, Layers.transcript,
  Layers.Passes, Layers.head?_of_found
Open obligations: none
-/
import BuildImpact.Proofs.Layers.Log
import BuildImpact.Proofs.Layers.Steps

namespace BuildImpact

variable {N : Type} [BEq N] [Hashable N] {graph : BuildGraph N}

namespace Layers

/-- A call of a walk to its visitor. -/
inductive Call (N : Type) where
  /-- A unit has its turn. -/
  | arrive (arrival : Arrival N)
  /-- An edge of the unit at hand is looked at, and followed or not. -/
  | look (arrival : Arrival N) (edge : Edge N) (taken : Bool)
deriving Repr, DecidableEq, Inhabited

/-- The arrival at the target of an edge of a visited unit. -/
def Arrival.along (arrival : Arrival N) (edge : Edge N) : Arrival N :=
  ⟨edge.target, some arrival.unit, arrival.depth + 1⟩

def Call.visited? : Call N → Option (Arrival N)
  | .arrive arrival => some arrival
  | .look .. => none

def Call.found? : Call N → Option (Arrival N)
  | .arrive _ => none
  | .look arrival edge taken => if taken then some (arrival.along edge) else none

/-- The arrivals that had their turn, in the order of their turns. -/
def visited (calls : List (Call N)) : List (Arrival N) := calls.filterMap Call.visited?

/-- The arrivals that were ever put on a layer: the start, and one for each followed edge,
in the order in which the edges were followed. -/
def found (start : N) (calls : List (Call N)) : List (Arrival N) :=
  ⟨start, none, 0⟩ :: calls.filterMap Call.found?

variable {σ : Type}

/-- The visitor with a transcript of its calls, in the order of the calls. -/
def transcribed (visitor : Visitor N σ) : Visitor N (σ × List (Call N)) where
  arrive memory arrival := (visitor.arrive memory.1 arrival, memory.2 ++ [.arrive arrival])
  takes memory arrival edge :=
    let decision := visitor.takes memory.1 arrival edge
    (decision.1, decision.2, memory.2 ++ [.look arrival edge decision.1])

omit [BEq N] [Hashable N] in
theorem shows_transcribed (visitor : Visitor N σ) :
    Shows (transcribed visitor) visitor Prod.fst :=
  ⟨fun _ _ => rfl, fun _ _ _ => rfl⟩

variable {visitor : Visitor N σ} {start : N}

omit [BEq N] [Hashable N] in
@[simp] theorem visited_arrive (calls : List (Call N)) (arrival : Arrival N) :
    visited (calls ++ [.arrive arrival]) = visited calls ++ [arrival] := by
  simp [visited, Call.visited?]

omit [BEq N] [Hashable N] in
@[simp] theorem visited_look (calls : List (Call N)) (arrival : Arrival N) (edge : Edge N)
    (taken : Bool) : visited (calls ++ [.look arrival edge taken]) = visited calls := by
  simp [visited, Call.visited?]

omit [BEq N] [Hashable N] in
@[simp] theorem found_arrive (calls : List (Call N)) (arrival : Arrival N) :
    found start (calls ++ [.arrive arrival]) = found start calls := by
  simp [found, Call.found?]

omit [BEq N] [Hashable N] in
@[simp] theorem found_taken (calls : List (Call N)) (arrival : Arrival N) (edge : Edge N) :
    found start (calls ++ [.look arrival edge true]) =
      found start calls ++ [arrival.along edge] := by
  simp [found, Call.found?]

omit [BEq N] [Hashable N] in
@[simp] theorem found_refused (calls : List (Call N)) (arrival : Arrival N) (edge : Edge N) :
    found start (calls ++ [.look arrival edge false]) = found start calls := by
  simp [found, Call.found?]

omit [BEq N] [Hashable N] in
theorem found_prefix (start : N) {fewer calls : List (Call N)} (before : fewer <+: calls) :
    found start fewer <+: found start calls :=
  List.prefix_cons_inj _ |>.mpr (before.filterMap _)

/-! ### What every visitor leaves in order -/

/-- What holds of every walk while the layer at `depth` is visited. -/
structure Account (start : N) (depth : Nat) (current next : List (Arrival N))
    (memory : σ × List (Call N)) : Prop where
  atDepth : ∀ arrival ∈ current, arrival.depth = depth
  ahead : ∀ arrival ∈ next, arrival.depth = depth + 1
  past : ∀ arrival ∈ visited memory.2, arrival.depth ≤ depth
  sorted : (visited memory.2).Pairwise (·.depth ≤ ·.depth)
  /-- What was found has been visited or waits, first come first served. -/
  queued : found start memory.2 = visited memory.2 ++ current ++ next.reverse

namespace Account

variable {depth : Nat} {arrival : Arrival N} {current waiting next : List (Arrival N)}
  {memory : σ × List (Call N)}

omit [BEq N] [Hashable N] in
theorem arrive (account : Account start depth (arrival :: waiting) next memory) :
    Account start depth waiting next ((transcribed visitor).arrive memory arrival) where
  atDepth := fun other member => account.atDepth other (List.mem_cons_of_mem _ member)
  ahead := account.ahead
  past := by
    have here := account.atDepth arrival List.mem_cons_self
    intro other member
    rw [transcribed, visited_arrive, List.mem_append, List.mem_singleton] at member
    rcases member with member | rfl
    · exact account.past other member
    · exact Nat.le_of_eq here
  sorted := by
    have here := account.atDepth arrival List.mem_cons_self
    rw [transcribed, visited_arrive, List.pairwise_append]
    refine ⟨account.sorted, List.pairwise_singleton _ _, fun earlier member last isLast => ?_⟩
    rw [List.mem_singleton.mp isLast, here]
    exact account.past earlier member
  queued := by
    simp [transcribed, account.queued]

omit [BEq N] [Hashable N] in
theorem follow (atDepth : arrival.depth = depth) {edges : List (Edge N)}
    (account : Account start depth waiting next memory) :
    Account start depth waiting
      (Layers.follow (transcribed visitor) arrival edges next memory).1
      (Layers.follow (transcribed visitor) arrival edges next memory).2 := by
  refine follow_induction (fun _ next memory => Account start depth waiting next memory)
    ?taken ?refused account
  case taken =>
    intro edge _ next before after decided account
    obtain ⟨decision, rfl⟩ := Prod.mk.inj decided
    refine ⟨account.atDepth, ?_, by simpa [decision] using account.past,
      by simpa [decision] using account.sorted, ?_⟩
    · intro other member
      rcases List.mem_cons.mp member with rfl | member
      · exact congrArg (· + 1) atDepth
      · exact account.ahead other member
    · simp [decision, account.queued, Arrival.along]
  case refused =>
    intro edge _ next before after decided account
    obtain ⟨decision, rfl⟩ := Prod.mk.inj decided
    exact ⟨account.atDepth, account.ahead, by simpa [decision] using account.past,
      by simpa [decision] using account.sorted, by simpa [decision] using account.queued⟩

omit [BEq N] [Hashable N] in
theorem change (account : Account start depth [] next memory) :
    Account start (depth + 1) next.reverse [] memory where
  atDepth := fun arrival member => account.ahead arrival (List.mem_reverse.mp member)
  ahead := nofun
  past := fun arrival member => Nat.le_succ_of_le (account.past arrival member)
  sorted := account.sorted
  queued := by simp [account.queued]

end Account

omit [BEq N] [Hashable N] in
/-- What holds at the beginning. -/
theorem account_start (start : N) (memory : σ) :
    Account start 0 [⟨start, none, 0⟩] [] (memory, []) :=
  ⟨by simp, nofun, nofun, .nil, rfl⟩

theorem kept_account :
    Kept graph (transcribed visitor) (Account start) :=
  ⟨fun account => account.arrive.follow (account.atDepth _ List.mem_cons_self),
    fun account => account.change⟩

/-! ### The turn of an arrival -/

theorem visited_visit (arrival : Arrival N) (next : List (Arrival N))
    (memory : σ × List (Call N)) :
    visited (visit graph (transcribed visitor) arrival next memory).2.2 =
      visited memory.2 ++ [arrival] := by
  refine follow_induction
    (fun _ _ (after : σ × List (Call N)) => visited after.2 = visited memory.2 ++ [arrival])
    ?taken ?refused (visited_arrive memory.2 arrival)
  case taken | refused =>
    intro edge _ next before after decided noted
    obtain ⟨-, rfl⟩ := Prod.mk.inj decided
    rwa [visited_look]

/-- A step gives the unit at the head of the layer its turn, and no other. -/
theorem visited_step (state : State N (σ × List (Call N))) :
    visited (step graph (transcribed visitor) state).memory.2 =
      visited state.memory.2 ++ state.current.head?.toList := by
  obtain ⟨current, next, memory⟩ := state
  match current with
  | [] => simp [step]
  | [arrival] => exact visited_visit arrival next memory
  | arrival :: _ :: _ => exact visited_visit arrival next memory

theorem prefix_visit (arrival : Arrival N) (next : List (Arrival N))
    (memory : σ × List (Call N)) :
    memory.2 <+: (visit graph (transcribed visitor) arrival next memory).2.2 := by
  refine follow_induction
    (fun _ _ (after : σ × List (Call N)) => memory.2 <+: after.2)
    ?taken ?refused (List.prefix_append _ _)
  case taken | refused =>
    intro edge _ next before after decided kept
    obtain ⟨-, rfl⟩ := Prod.mk.inj decided
    exact kept.trans (List.prefix_append _ _)

/-- A transcript only grows. -/
theorem prefix_step (state : State N (σ × List (Call N))) :
    state.memory.2 <+: (step graph (transcribed visitor) state).memory.2 := by
  obtain ⟨current, next, memory⟩ := state
  match current with
  | [] => exact List.prefix_rfl
  | [arrival] => exact prefix_visit arrival next memory
  | arrival :: _ :: _ => exact prefix_visit arrival next memory

/-! ### Transcripts of whole walks -/

/-- A walk with its transcript after so many visits. -/
def transcript (graph : BuildGraph N) (visitor : Visitor N σ) (start : N) (memory : σ)
    (visits : Nat) : State N (σ × List (Call N)) :=
  steps graph (transcribed visitor) visits (.start start (memory, []))

/-- A walk in the middle of a visit: the first in the layer at hand has its turn, and the
first `looked` of its edges have been looked at. -/
def midway (graph : BuildGraph N) (visitor : Visitor N σ) (looked : Nat) (state : State N σ) :
    State N σ :=
  match state.current with
  | [] => state
  | arrival :: waiting =>
    let led := follow visitor arrival ((graph.edges arrival.unit).take looked) state.next
      (visitor.arrive state.memory arrival)
    ⟨waiting, led.1, led.2⟩

/-- The states that a walk passes through: those between two visits, and those in the middle
of a visit before the layers change. -/
inductive Passes (graph : BuildGraph N) (visitor : Visitor N σ) (start : N) (memory : σ) :
    State N (σ × List (Call N)) → Prop where
  | between (visits : Nat) :
      Passes graph visitor start memory (transcript graph visitor start memory visits)
  | midway (visits looked : Nat) :
      Passes graph visitor start memory
        (midway graph (transcribed visitor) looked (transcript graph visitor start memory visits))

theorem transcript_succ (memory : σ) (visits : Nat) :
    transcript graph visitor start memory (visits + 1) =
      step graph (transcribed visitor) (transcript graph visitor start memory visits) :=
  steps_succ visits _

/-- But for the transcript the walk is the same. -/
theorem part_transcript (memory : σ) (visits : Nat) :
    (transcript graph visitor start memory visits).part Prod.fst =
      steps graph visitor visits (.start start memory) :=
  (shows_transcribed visitor).steps visits _

variable (graph visitor start) in
/-- The account holds at any time. -/
theorem exists_account (memory : σ) (visits : Nat) :
    ∃ depth, Account start depth (transcript graph visitor start memory visits).current
      (transcript graph visitor start memory visits).next
      (transcript graph visitor start memory visits).memory :=
  kept_account.steps visits (account_start start memory)

theorem prefix_transcript (memory : σ) {fewer visits : Nat} (before : fewer ≤ visits) :
    (transcript graph visitor start memory fewer).memory.2 <+:
      (transcript graph visitor start memory visits).memory.2 := by
  induction visits, before using Nat.le_induction with
  | base => exact List.prefix_rfl
  | succ visits _ inductionHypothesis =>
      rw [transcript_succ]
      exact inductionHypothesis.trans (prefix_step _)

/-- No more units have had their turn than there were visits. -/
theorem length_visited_le (memory : σ) (visits : Nat) :
    (visited (transcript graph visitor start memory visits).memory.2).length ≤ visits := by
  induction visits with
  | zero => exact Nat.le_refl 0
  | succ visits inductionHypothesis =>
      rw [transcript_succ, visited_step, List.length_append]
      exact Nat.add_le_add inductionHypothesis Option.length_toList_le

/-- As long as the walk goes on, each visit gives a unit its turn. -/
theorem length_visited (memory : σ) (visits : Nat)
    (unfinished : (transcript graph visitor start memory visits).current ≠ []) :
    (visited (transcript graph visitor start memory visits).memory.2).length = visits := by
  induction visits with
  | zero => rfl
  | succ visits inductionHypothesis =>
      have earlier : (transcript graph visitor start memory visits).current ≠ [] := by
        intro finished
        rw [transcript_succ, step_of_finished finished] at unfinished
        exact unfinished finished
      obtain ⟨arrival, waiting, waits⟩ := List.exists_cons_of_ne_nil earlier
      rw [transcript_succ, visited_step, waits, List.length_append, inductionHypothesis earlier]
      rfl

/-- First come, first served: what was found after `index` other arrivals has its turn after
as many visits. -/
theorem head?_of_found (memory : σ) {visits index : Nat} {arrival : Arrival N}
    (among : (found start (transcript graph visitor start memory visits).memory.2)[index]? =
      some arrival) :
    (transcript graph visitor start memory index).current.head? = some arrival := by
  obtain ⟨_, account⟩ := exists_account graph visitor start memory index
  have later {fewer : Nat} (before : fewer ≤ max visits index) {other : Arrival N}
      (known : (found start (transcript graph visitor start memory fewer).memory.2)[index]? =
        some other) :
      (found start (transcript graph visitor start memory (max visits index)).memory.2)[index]? =
        some other := by
    have calls : (transcript graph visitor start memory fewer).memory.2 <+:
        (transcript graph visitor start memory (max visits index)).memory.2 :=
      prefix_transcript memory before
    obtain ⟨rest, grown⟩ := found_prefix start calls
    have within := (List.getElem?_eq_some_iff.mp known).1
    rw [← grown, List.getElem?_append_left within, known]
  have among := later (Nat.le_max_left _ _) among
  cases waits : (transcript graph visitor start memory index).current with
  | nil =>
      -- What is finished by then has visited all that it will ever find.
      have still : transcript graph visitor start memory (max visits index) =
          transcript graph visitor start memory index := by
        obtain ⟨more, same⟩ := Nat.exists_eq_add_of_le (Nat.le_max_right visits index)
        rw [same, transcript, steps_add]
        exact steps_of_finished waits more
      have nothing : (transcript graph visitor start memory index).next = [] :=
        next_of_finished index waits
      have queued := account.queued
      rw [waits, nothing, List.reverse_nil, List.append_nil, List.append_nil] at queued
      rw [still, queued] at among
      have within := (List.getElem?_eq_some_iff.mp among).1
      exact absurd (length_visited_le memory index) (Nat.not_le.mpr within)
  | cons first waiting =>
      have turns : (visited (transcript graph visitor start memory index).memory.2).length =
          index := by
        refine length_visited memory index ?_
        rw [waits]
        exact List.cons_ne_nil _ _
      have here : (found start (transcript graph visitor start memory index).memory.2)[index]? =
          some first := by
        rw [account.queued, waits, List.append_assoc,
          List.getElem?_append_right (Nat.le_of_eq turns), turns, Nat.sub_self]
        rfl
      exact (later (Nat.le_max_right _ _) here).symm.trans among

end Layers

end BuildImpact
