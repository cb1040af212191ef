/-
Module: BuildImpact.Proofs.Repetition.Edges
Layer: Proofs
Purpose: Lists of edges in which edges are repeated.  A list goes over to another one by
  copies of edges that stand earlier in it.  Both lists hold the same edges, and each edge
  of the shorter one has a place in the longer one before which nothing new stands, so that
  what comes first in the one comes first in the other.
Imports: Mathlib.Order.Monotone.Basic, BuildImpact.Proofs.Graph.Locality
Trusted boundary: none
Main exports: Repeats, Repeats.mem_iff, Repeats.copy, Repeats.peel, Embeds,
  Repeats.exists_embeds, BuildGraph.RepeatsEdges, BuildGraph.RepeatsEdges.of_copy
Open obligations: none
-/
import Mathlib.Order.Monotone.Basic
import BuildImpact.Proofs.Graph.Locality

namespace BuildImpact

variable {N : Type}

/-! ### Copies of earlier edges -/

/-- `Repeats seen edges repeated`: behind the edges `seen`, the list `repeated` is `edges`
with further edges, each of which stands before as well. -/
inductive Repeats : List (Edge N) → List (Edge N) → List (Edge N) → Prop where
  | done (seen : List (Edge N)) : Repeats seen [] []
  | same {seen edges repeated : List (Edge N)} (edge : Edge N)
      (onward : Repeats (edge :: seen) edges repeated) :
      Repeats seen (edge :: edges) (edge :: repeated)
  | again {seen edges repeated : List (Edge N)} {edge : Edge N} (old : edge ∈ seen)
      (onward : Repeats seen edges repeated) :
      Repeats seen edges (edge :: repeated)

variable {seen edges repeated : List (Edge N)} {edge : Edge N}

namespace Repeats

theorem refl (seen edges : List (Edge N)) : Repeats seen edges edges := by
  induction edges generalizing seen with
  | nil => exact .done seen
  | cons edge edges inductionHypothesis => exact .same edge (inductionHypothesis _)

/-- An edge seen before may be repeated anywhere. -/
theorem copy_of_mem (old : edge ∈ seen) (middle back : List (Edge N)) :
    Repeats seen (middle ++ back) (middle ++ edge :: back) := by
  induction middle generalizing seen with
  | nil => exact .again old (refl seen back)
  | cons first middle inductionHypothesis =>
      exact .same first (inductionHypothesis (List.mem_cons_of_mem _ old))

/-- An edge of a list may be repeated anywhere behind its place. -/
theorem copy (seen front : List (Edge N)) (edge : Edge N) (middle back : List (Edge N)) :
    Repeats seen (front ++ edge :: (middle ++ back))
      (front ++ edge :: (middle ++ edge :: back)) := by
  induction front generalizing seen with
  | nil => exact .same edge (copy_of_mem List.mem_cons_self middle back)
  | cons first front inductionHypothesis => exact .same first (inductionHypothesis _)

/-- All edges of a list are kept. -/
theorem mem_of_mem (repeats : Repeats seen edges repeated) (given : edge ∈ edges) :
    edge ∈ repeated := by
  induction repeats with
  | done => cases given
  | same first _ inductionHypothesis =>
      rcases List.mem_cons.mp given with rfl | later
      · exact List.mem_cons_self
      · exact List.mem_cons_of_mem _ (inductionHypothesis later)
  | again _ _ inductionHypothesis => exact List.mem_cons_of_mem _ (inductionHypothesis given)

/-- Every edge that is added stands before, in the end among those of the list. -/
theorem mem_or_mem (repeats : Repeats seen edges repeated) (given : edge ∈ repeated) :
    edge ∈ seen ∨ edge ∈ edges := by
  induction repeats with
  | done => cases given
  | same first _ inductionHypothesis =>
      rcases List.mem_cons.mp given with rfl | later
      · exact .inr List.mem_cons_self
      · rcases inductionHypothesis later with before | found
        · rcases List.mem_cons.mp before with rfl | old
          · exact .inr List.mem_cons_self
          · exact .inl old
        · exact .inr (List.mem_cons_of_mem _ found)
  | again old _ inductionHypothesis =>
      rcases List.mem_cons.mp given with rfl | later
      · exact .inl old
      · exact inductionHypothesis later

theorem mem_iff (repeats : Repeats [] edges repeated) : edge ∈ repeated ↔ edge ∈ edges :=
  ⟨fun given => (repeats.mem_or_mem given).resolve_left List.not_mem_nil, repeats.mem_of_mem⟩

/-- What stands before the first edge of a list are copies of what was seen. -/
theorem peel (repeats : Repeats seen (edge :: edges) repeated) :
    ∃ copies onward, repeated = copies ++ edge :: onward ∧ (∀ copy ∈ copies, copy ∈ seen) ∧
      Repeats (edge :: seen) edges onward := by
  generalize whole : edge :: edges = list at repeats
  induction repeats with
  | done => cases whole
  | same first onward _ =>
      cases whole
      exact ⟨[], _, rfl, nofun, onward⟩
  | again old _ inductionHypothesis =>
      obtain ⟨copies, onward, rfl, copied, rest⟩ := inductionHypothesis whole
      exact ⟨_ :: copies, onward, rfl, List.forall_mem_cons.mpr ⟨old, copied⟩, rest⟩

end Repeats

/-! ### Places -/

/-- Whether the edges of a list have their places in another one, in the same order, and
nothing new stands before the place of any of them. -/
structure Embeds (place : Nat → Nat) (edges repeated : List (Edge N)) : Prop where
  mono : StrictMono place
  kept : ∀ position edge, edges[position]? = some edge → repeated[place position]? = some edge
  first : ∀ position edge, repeated[position]? = some edge →
    ∃ earlier, edges[earlier]? = some edge ∧ place earlier ≤ position

namespace Repeats

/-- A list moved to begin at `first`, with the other places behind. -/
theorem strictMono_cons {place : Nat → Nat} (mono : StrictMono place) :
    StrictMono fun | 0 => 0 | position + 1 => place position + 1 := by
  intro one other less
  match one, other with
  | 0, _ + 1 => exact Nat.succ_pos _
  | one + 1, other + 1 => exact Nat.succ_lt_succ (mono (Nat.lt_of_succ_lt_succ less))

theorem exists_embeds_or_mem (repeats : Repeats seen edges repeated) :
    ∃ place : Nat → Nat, StrictMono place ∧
      (∀ position edge, edges[position]? = some edge →
        repeated[place position]? = some edge) ∧
      ∀ position edge, repeated[position]? = some edge → edge ∈ seen ∨
        ∃ earlier, edges[earlier]? = some edge ∧ place earlier ≤ position := by
  induction repeats with
  | done => exact ⟨id, strictMono_id, nofun, nofun⟩
  | @same seen edges repeated first _ inductionHypothesis =>
      obtain ⟨place, mono, kept, earliest⟩ := inductionHypothesis
      refine ⟨fun | 0 => 0 | position + 1 => place position + 1, strictMono_cons mono, ?_, ?_⟩
      · intro position edge given
        cases position with
        | zero => exact given
        | succ position => exact kept position edge given
      · intro position edge given
        cases position with
        | zero => exact .inr ⟨0, given, Nat.le_refl 0⟩
        | succ position =>
            rcases earliest position edge given with before | ⟨earlier, found, bound⟩
            · rcases List.mem_cons.mp before with rfl | old
              · exact .inr ⟨0, rfl, Nat.zero_le _⟩
              · exact .inl old
            · exact .inr ⟨earlier + 1, found, Nat.succ_le_succ bound⟩
  | @again edge seen edges repeated old _ inductionHypothesis =>
      obtain ⟨place, mono, kept, earliest⟩ := inductionHypothesis
      refine ⟨fun position => place position + 1, mono.add_const 1, kept, ?_⟩
      intro position copy given
      cases position with
      | zero =>
          cases given
          exact .inl old
      | succ position =>
          exact (earliest position copy given).imp_right
            fun ⟨earlier, found, bound⟩ => ⟨earlier, found, Nat.succ_le_succ bound⟩

/-- Copies of earlier edges leave each edge a place behind what came before it alone. -/
theorem exists_embeds (repeats : Repeats [] edges repeated) :
    ∃ place, Embeds place edges repeated := by
  obtain ⟨place, mono, kept, earliest⟩ := repeats.exists_embeds_or_mem
  refine ⟨place, mono, kept, fun position edge given => ?_⟩
  exact (earliest position edge given).resolve_left List.not_mem_nil

end Repeats

/-- That an edge of some sort comes before all edges of another sort, said with its place. -/
theorem exists_first_iff_getElem? {Sought Passed : Edge N → Prop} :
    (∃ front edge back, edges = front ++ edge :: back ∧ Sought edge ∧
      ∀ earlier ∈ front, Passed earlier) ↔
    ∃ (position : Nat) (edge : Edge N), edges[position]? = some edge ∧ Sought edge ∧
      ∀ before : Nat, before < position → ∀ earlier : Edge N, edges[before]? = some earlier →
        Passed earlier := by
  constructor
  · rintro ⟨front, edge, back, rfl, sought, passed⟩
    refine ⟨front.length, edge, by simp, sought, fun before less earlier given => ?_⟩
    rw [List.getElem?_append_left less] at given
    exact passed earlier (List.mem_of_getElem? given)
  · rintro ⟨position, edge, given, sought, passed⟩
    obtain ⟨bound, rfl⟩ := List.getElem?_eq_some_iff.mp given
    refine ⟨edges.take position, edges[position], edges.drop (position + 1), ?_, sought, ?_⟩
    · rw [← List.drop_eq_getElem_cons bound, List.take_append_drop]
    · intro earlier member
      obtain ⟨before, within, rfl⟩ := List.mem_take_iff_getElem.mp member
      obtain ⟨less, inside⟩ := lt_min_iff.mp within
      exact passed before less _ (List.getElem?_eq_getElem inside)

namespace Embeds

variable {place : Nat → Nat}

/-- The first edge of a kind, behind edges of another kind alone, is the first one with or
without the copies. -/
theorem exists_first_iff (embeds : Embeds place edges repeated) (Sought Passed : Edge N → Prop) :
    (∃ front edge back, edges = front ++ edge :: back ∧ Sought edge ∧
      ∀ earlier ∈ front, Passed earlier) ↔
    ∃ front edge back, repeated = front ++ edge :: back ∧ Sought edge ∧
      ∀ earlier ∈ front, Passed earlier := by
  rw [exists_first_iff_getElem?, exists_first_iff_getElem?]
  constructor
  · rintro ⟨position, edge, given, sought, passed⟩
    refine ⟨place position, edge, embeds.kept position edge given, sought, ?_⟩
    intro before less earlier found
    obtain ⟨original, isGiven, bound⟩ := embeds.first before earlier found
    exact passed original (embeds.mono.lt_iff_lt.mp (bound.trans_lt less)) earlier isGiven
  · rintro ⟨position, edge, given, sought, passed⟩
    obtain ⟨original, isGiven, bound⟩ := embeds.first position edge given
    refine ⟨original, edge, isGiven, sought, fun before less earlier found => ?_⟩
    exact passed (place before) ((embeds.mono less).trans_le bound) earlier
      (embeds.kept before earlier found)

end Embeds

/-! ### Graphs with repeated edges -/

namespace BuildGraph

variable [BEq N] [Hashable N] {graph other : BuildGraph N}

/-- Whether `other` is `graph` with copies of edges behind the edges copied. -/
def RepeatsEdges (graph other : BuildGraph N) : Prop :=
  ∀ unit, Repeats [] (graph.edges unit) (other.edges unit)

namespace RepeatsEdges

/-- Both graphs hold the same edges. -/
theorem mem_iff (repeats : RepeatsEdges graph other) (unit : N) (edge : Edge N) :
    edge ∈ graph.edges unit ↔ edge ∈ other.edges unit :=
  (repeats unit).mem_iff.symm

/-- A copy of one edge of one unit, anywhere behind the edge. -/
theorem of_copy {unit : N} {front : List (Edge N)} {edge : Edge N} {middle back : List (Edge N)}
    (given : graph.edges unit = front ++ edge :: (middle ++ back))
    (copied : other.edges unit = front ++ edge :: (middle ++ edge :: back))
    (elsewhere : ∀ another, another ≠ unit → other.edges another = graph.edges another) :
    RepeatsEdges graph other := by
  intro another
  by_cases same : another = unit
  · rw [same, given, copied]
    exact .copy [] front edge middle back
  · rw [elsewhere another same]
    exact .refl [] _

end RepeatsEdges

end BuildGraph

end BuildImpact
