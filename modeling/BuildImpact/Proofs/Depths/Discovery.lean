/-
Module: BuildImpact.Proofs.Depths.Discovery
Layer: Proofs
Purpose: Each unit is discovered once when depths are noted.  A unit is noted when an edge
  first leads to it, and only then put on a layer, so no unit stands twice among those
  visited, those of the layer at hand and those of the layer to come, and these are the
  units with a note.  In the end every unit in reach has been visited once, at its depth.
Imports: BuildImpact.Proofs.Depths.Minimal, BuildImpact.Proofs.Layers.Transcript
Trusted boundary: none
Main exports: Depths.Discovered, Depths.Noting, Depths.kept_noting, Depths.units,
  Depths.Noting.once, Depths.exists_discovered, BuildGraph.discovered_once
Open obligations: none
-/
import BuildImpact.Proofs.Depths.Minimal
import BuildImpact.Proofs.Layers.Transcript

namespace BuildImpact

variable {N : Type} [BEq N] [Hashable N] {graph : BuildGraph N}

open Layers (Account Arrival Call found transcribed transcript visited)

namespace Depths

variable {root : N}

/-- What has been noted once the root has had its turn: the depths of what was found, in
which each unit occurs once. -/
structure Discovered (root : N) (memory : Std.HashMap N Nat × List (Call N)) : Prop where
  rooted : ⟨root, none, 0⟩ ∈ visited memory.2
  nodup : ((found root memory.2).map (·.unit)).Nodup
  noted : ∀ unit depth, memory.1[unit]? = some depth ↔
    ∃ arrival ∈ found root memory.2, arrival.unit = unit ∧ arrival.depth = depth

variable {memory : Std.HashMap N Nat × List (Call N)} {arrival : Arrival N} {edge : Edge N}

namespace Discovered

/-- The units with a note are those found. -/
theorem mem_iff [LawfulBEq N] (discovered : Discovered root memory) {unit : N} :
    unit ∈ memory.1 ↔ unit ∈ (found root memory.2).map (·.unit) := by
  rw [Std.HashMap.mem_iff_isSome_getElem?, Option.isSome_iff_exists, List.mem_map]
  constructor
  · rintro ⟨depth, known⟩
    obtain ⟨arrival, member, isUnit, _⟩ := (discovered.noted unit depth).mp known
    exact ⟨arrival, member, isUnit⟩
  · rintro ⟨arrival, member, isUnit⟩
    exact ⟨arrival.depth, (discovered.noted unit _).mpr ⟨arrival, member, isUnit, rfl⟩⟩

variable [LawfulBEq N]

/-- The root is noted at its turn. -/
theorem opened (root : N) :
    Discovered root ((transcribed recorder).arrive (∅, []) ⟨root, none, 0⟩) where
  rooted := by simp [transcribed, visited, Call.visited?]
  nodup := List.nodup_singleton root
  noted := by
    intro unit depth
    have alone : found root ((transcribed recorder).arrive (∅, []) ⟨root, none, 0⟩).2 =
        [⟨root, none, 0⟩] := rfl
    rw [alone]
    simp [transcribed, recorder, Std.HashMap.getElem?_insertIfNew]

/-- What has been found is not noted again at its turn. -/
theorem arrive (discovered : Discovered root memory) (among : arrival ∈ found root memory.2) :
    Discovered root ((transcribed recorder).arrive memory arrival) where
  rooted := by
    rw [transcribed, Layers.visited_arrive]
    exact List.mem_append_left _ discovered.rooted
  nodup := by
    rw [transcribed, Layers.found_arrive]
    exact discovered.nodup
  noted := by
    have old : arrival.unit ∈ memory.1 := discovered.mem_iff.mpr (List.mem_map_of_mem among)
    intro unit depth
    simp only [transcribed, recorder, Layers.found_arrive, Std.HashMap.getElem?_insertIfNew, old,
      not_true_eq_false, and_false, if_false]
    exact discovered.noted unit depth

omit [LawfulBEq N] in
/-- An edge to a unit with a note finds nothing. -/
theorem refused (discovered : Discovered root memory) :
    Discovered root (memory.1, memory.2 ++ [.look arrival edge false]) where
  rooted := by simpa using discovered.rooted
  nodup := by simpa using discovered.nodup
  noted := by simpa using discovered.noted

/-- An edge to a unit without one finds it, and it is noted with its depth. -/
theorem taken (discovered : Discovered root memory) (new : edge.target ∉ memory.1) :
    Discovered root (memory.1.insert edge.target (arrival.depth + 1),
      memory.2 ++ [.look arrival edge true]) where
  rooted := by simpa using discovered.rooted
  nodup := by
    rw [Layers.found_taken, List.map_append, List.nodup_append]
    refine ⟨discovered.nodup, List.nodup_singleton _, ?_⟩
    rintro unit member _ isTarget rfl
    obtain rfl := List.mem_singleton.mp isTarget
    exact new (discovered.mem_iff.mpr member)
  noted := by
    intro unit depth
    simp only [Layers.found_taken, List.mem_append, List.mem_singleton,
      Std.HashMap.getElem?_insert]
    split
    · rename_i same
      obtain rfl := eq_of_beq same
      constructor
      · intro known
        exact ⟨_, .inr rfl, rfl, Option.some.inj known⟩
      · rintro ⟨other, member | rfl, isTarget, rfl⟩
        · exact absurd (discovered.mem_iff.mpr (isTarget ▸ List.mem_map_of_mem member)) new
        · rfl
    · rename_i apart
      rw [discovered.noted]
      constructor
      · rintro ⟨other, member, isUnit⟩
        exact ⟨other, .inl member, isUnit⟩
      · rintro ⟨other, member | rfl, isUnit⟩
        · exact ⟨other, member, isUnit⟩
        · exact absurd (beq_iff_eq.mpr isUnit.1) apart

/-- Looking at edges finds those of their targets that have no note, and notes them. -/
theorem follow (discovered : Discovered root memory) (edges : List (Edge N))
    (next : List (Arrival N)) :
    Discovered root (Layers.follow (transcribed recorder) arrival edges next memory).2 := by
  refine Layers.follow_induction (fun _ _ memory => Discovered root memory) ?_ ?_ discovered
  · intro edge _ next before after decided discovered
    simp only [transcribed, recorder] at decided
    split at decided
    · cases decided
    · rename_i new
      cases decided
      exact discovered.taken (mt Std.HashMap.mem_iff_contains.mp new)
  · intro edge _ next before after decided discovered
    simp only [transcribed, recorder] at decided
    split at decided
    · cases decided
      exact discovered.refused
    · cases decided

end Discovered

/-- What holds of a walk that notes depths: nothing is noted before the first visit, and from
then on what has been found. -/
structure Noting (root : N) (depth : Nat) (current next : List (Arrival N))
    (memory : Std.HashMap N Nat × List (Call N)) : Prop where
  account : Account root depth current next memory
  begun : memory = (∅, []) ∨ Discovered root memory

namespace Noting

variable [LawfulBEq N] {depth : Nat} {current waiting next : List (Arrival N)}

/-- The first in the layer at hand has its turn, and some of its edges are looked at. -/
theorem visit (noting : Noting root depth (arrival :: waiting) next memory)
    (edges : List (Edge N)) :
    let led := Layers.follow (transcribed recorder) arrival edges next
      ((transcribed recorder).arrive memory arrival)
    Noting root depth waiting led.1 led.2 ∧ Discovered root led.2 := by
  intro led
  have queued := noting.account.queued
  have turn : Discovered root ((transcribed recorder).arrive memory arrival) := by
    -- Before the first visit not even the root is noted.
    rcases noting.begun with rfl | discovered
    · obtain ⟨rfl, _⟩ := List.cons.inj queued
      exact .opened root
    · refine discovered.arrive ?_
      rw [queued]
      simp
  have noted : Discovered root (Layers.follow (transcribed recorder) arrival edges next
      ((transcribed recorder).arrive memory arrival)).2 := turn.follow edges next
  exact ⟨⟨noting.account.arrive.follow (noting.account.atDepth _ List.mem_cons_self), .inr noted⟩,
    noted⟩

end Noting

theorem kept_noting [LawfulBEq N] :
    Layers.Kept graph (transcribed recorder) (Noting root) where
  visit noting := (noting.visit _).1
  change noting := ⟨noting.account.change, noting.begun⟩

/-- It holds between two visits. -/
theorem exists_noting [LawfulBEq N] (graph : BuildGraph N) (root : N) (visits : Nat) :
    ∃ depth, Noting root depth (transcript graph recorder root ∅ visits).current
      (transcript graph recorder root ∅ visits).next
      (transcript graph recorder root ∅ visits).memory :=
  kept_noting.steps visits ⟨Layers.account_start root ∅, .inl rfl⟩

/-- It holds of every state that the walk passes through. -/
theorem exists_noting_of_passes [LawfulBEq N]
    {state : Layers.State N (Std.HashMap N Nat × List (Call N))}
    (passes : Layers.Passes graph recorder root ∅ state) :
    ∃ depth, Noting root depth state.current state.next state.memory := by
  cases passes with
  | between visits => exact exists_noting graph root visits
  | midway visits looked =>
      obtain ⟨depth, noting⟩ := exists_noting graph root visits
      generalize transcript graph recorder root ∅ visits = state at noting
      obtain ⟨current, next, memory⟩ := state
      cases current with
      | nil => exact ⟨depth, noting⟩
      | cons arrival waiting => exact ⟨depth, (noting.visit _).1⟩

/-- The units of a walk: those that had their turn, those of the layer at hand and those of
the layer to come. -/
def units {σ : Type} (state : Layers.State N (σ × List (Call N))) : List N :=
  (visited state.memory.2 ++ state.current ++ state.next).map (·.unit)

omit [BEq N] [Hashable N] in
theorem units_perm {σ : Type} {depth : Nat} {state : Layers.State N (σ × List (Call N))}
    (account : Account root depth state.current state.next state.memory) :
    (units state).Perm ((found root state.memory.2).map (·.unit)) := by
  rw [account.queued]
  exact ((List.reverse_perm state.next).symm.append_left _).map _

variable [LawfulBEq N]

/-- No unit occurs twice, and those with a note are those that occur; the root, which no edge
has to find, is noted at its turn. -/
theorem Noting.once {depth : Nat} {state : Layers.State N (Std.HashMap N Nat × List (Call N))}
    (noting : Noting root depth state.current state.next state.memory) :
    (units state).Nodup ∧ ∀ unit, unit ∈ state.memory.1 ↔
      unit ∈ units state ∧ (unit = root → root ∈ (visited state.memory.2).map (·.unit)) := by
  have same := units_perm noting.account
  rcases noting.begun with untouched | discovered
  · rw [untouched] at same ⊢
    refine ⟨same.nodup_iff.mpr (List.nodup_singleton root), fun unit => ?_⟩
    rw [same.mem_iff]
    simp [found, visited]
  · have turn := List.mem_map_of_mem (f := Arrival.unit) discovered.rooted
    refine ⟨same.nodup_iff.mpr discovered.nodup, fun unit => ?_⟩
    rw [discovered.mem_iff, same.mem_iff]
    exact (and_iff_left fun _ => turn).symm

/-- In the end everything that was found has had its turn. -/
theorem exists_discovered (graph : BuildGraph N) (root : N) :
    ∃ visits, (transcript graph recorder root ∅ visits).current = [] ∧
      (transcript graph recorder root ∅ visits).next = [] ∧
      (transcript graph recorder root ∅ visits).memory.1 = graph.depths root ∧
      Discovered root (transcript graph recorder root ∅ visits).memory ∧
      found root (transcript graph recorder root ∅ visits).memory.2 =
        visited (transcript graph recorder root ∅ visits).memory.2 := by
  obtain ⟨visits, last⟩ : ∃ visits, Layers.steps graph recorder visits (.start root ∅) =
      ⟨[], [], graph.depths root⟩ := by
    obtain ⟨visits, _, last⟩ :=
      kept_frontier.exists_last_visit (.inl (untouched_start root)) depth_lt_budget
    exact ⟨visits, last⟩
  rw [← Layers.part_transcript] at last
  have current : (transcript graph recorder root ∅ visits).current = [] :=
    congrArg Layers.State.current last
  have next : (transcript graph recorder root ∅ visits).next = [] :=
    congrArg Layers.State.next last
  obtain ⟨_, noting⟩ := exists_noting graph root visits
  have queued := noting.account.queued
  rw [current, next, List.reverse_nil, List.append_nil, List.append_nil] at queued
  refine ⟨visits, current, next, congrArg Layers.State.memory last, ?_, queued⟩
  refine noting.begun.resolve_left fun untouched => ?_
  rw [untouched] at queued
  cases queued

end Depths

namespace BuildGraph

variable [LawfulBEq N]

/-- Each unit is discovered once.  In every state that the walk passes through, no unit
occurs twice among those visited, those of the layer at hand and those of the layer to come,
and these are the units with a note, the root once it has been visited.  In the end each
unit in reach has been visited once and no other unit at all, in the order of the depths,
at the depth that is noted for it. -/
theorem discovered_once (graph : BuildGraph N) (root : N) :
    (∀ state, Layers.Passes graph Depths.recorder root ∅ state →
      (Depths.units state).Nodup ∧ ∀ unit, unit ∈ state.memory.1 ↔
        unit ∈ Depths.units state ∧
          (unit = root → root ∈ (visited state.memory.2).map (·.unit))) ∧
    ∃ visits,
      let last := transcript graph Depths.recorder root ∅ visits
      last.current = [] ∧ last.next = [] ∧ last.memory.1 = graph.depths root ∧
      ((visited last.memory.2).map (·.unit)).Nodup ∧
      (∀ unit, unit ∈ (visited last.memory.2).map (·.unit) ↔ graph.Reaches root unit) ∧
      (visited last.memory.2).Pairwise (·.depth ≤ ·.depth) ∧
      ∀ arrival ∈ visited last.memory.2,
        (graph.depths root)[arrival.unit]? = some arrival.depth := by
  constructor
  · intro state passes
    obtain ⟨_, noting⟩ := Depths.exists_noting_of_passes passes
    exact noting.once
  · obtain ⟨visits, current, next, depths, discovered, all⟩ :=
      Depths.exists_discovered graph root
    obtain ⟨_, account⟩ := Layers.exists_account graph Depths.recorder root ∅ visits
    refine ⟨visits, current, next, depths, all ▸ discovered.nodup, fun unit => ?_, account.sorted,
      fun arrival member => ?_⟩
    · rw [← all, ← discovered.mem_iff, depths, Depths.mem_depths_iff]
    · rw [← depths, discovered.noted, all]
      exact ⟨arrival, member, rfl, rfl⟩

/-- A graph with an edge from `0` to itself, two to `1`, one across from `1` to `2`, and one
back to `0`. -/
def crossing : BuildGraph Nat :=
  ofList [(0, [⟨0, .compile⟩, ⟨1, .compile⟩, ⟨1, .runtime⟩, ⟨2, .reexport⟩]),
    (1, [⟨2, .runtime⟩, ⟨3, .compile⟩]), (2, [⟨0, .runtime⟩])]

/-- In the middle of its second visit the walk of `crossing` has no unit twice, and in the
end `3` has been visited once. -/
theorem discovered_once_crossing :
    (Depths.units (Layers.midway crossing (transcribed Depths.recorder) 1
        (transcript crossing Depths.recorder 0 ∅ 1))).Nodup ∧
      ∃ visits, (((visited (transcript crossing Depths.recorder 0 ∅ visits).memory.2).map
        (·.unit)).count 3) = 1 := by
  have first : (⟨1, .compile⟩ : Edge Nat) ∈ crossing.edges 0 := by simp [crossing, edges_ofList]
  have second : (⟨3, .compile⟩ : Edge Nat) ∈ crossing.edges 1 := by simp [crossing, edges_ofList]
  obtain ⟨always, visits, _, _, _, nodup, inReach, _⟩ := discovered_once crossing 0
  refine ⟨(always _ (.midway 1 1)).1, visits, List.count_eq_one_of_mem nodup ?_⟩
  exact (inReach 3).mpr ((Reaches.of_mem first).trans (.of_mem second))

end BuildGraph

end BuildImpact
