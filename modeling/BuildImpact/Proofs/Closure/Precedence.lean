/-
Module: BuildImpact.Proofs.Closure.Precedence
Layer: Proofs
Purpose: The order in which the closure walk takes the edges of a unit.  It is the stable
  sort of the edges by the strength of their kinds.  A list that is sorted by kind is its
  own order by precedence, and this order depends on nothing but the edges of each kind;
  so whatever is sorted and leaves the edges of each kind in their order is the same list.
Imports: BuildImpact.Proofs.Closure.Sweep
Trusted boundary: none
Main exports: EdgeKind.rank, Closure.Buckets, Closure.joined_foldl_file,
  Closure.sorted_strongestFirst, Closure.filter_strongestFirst,
  Closure.eq_strongestFirst_iff, Closure.strongestFirst_stable
Open obligations: none
-/
import BuildImpact.Proofs.Closure.Sweep

namespace BuildImpact

variable {N : Type}

/-- How far behind the strongest kind a kind comes. -/
def EdgeKind.rank : EdgeKind → Nat
  | .compile => 0
  | .reexport => 1
  | .runtime => 2

namespace Closure

/-! ### Edges by kind in one pass -/

/-- The edges seen so far, by kind. -/
structure Buckets (N : Type) where
  compile : List (Edge N)
  reexport : List (Edge N)
  runtime : List (Edge N)

namespace Buckets

def empty : Buckets N := ⟨[], [], []⟩

/-- An edge is put behind those of its kind. -/
def file (buckets : Buckets N) (edge : Edge N) : Buckets N :=
  match edge.kind with
  | .compile => { buckets with compile := buckets.compile ++ [edge] }
  | .reexport => { buckets with reexport := buckets.reexport ++ [edge] }
  | .runtime => { buckets with runtime := buckets.runtime ++ [edge] }

/-- The strongest kind comes first. -/
def joined (buckets : Buckets N) : List (Edge N) :=
  buckets.compile ++ buckets.reexport ++ buckets.runtime

theorem foldl_file (edges : List (Edge N)) (buckets : Buckets N) :
    edges.foldl file buckets =
      ⟨buckets.compile ++ edges.filter (·.kind == .compile),
        buckets.reexport ++ edges.filter (·.kind == .reexport),
        buckets.runtime ++ edges.filter (·.kind == .runtime)⟩ := by
  induction edges generalizing buckets with
  | nil => simp
  | cons edge edges inductionHypothesis =>
      obtain ⟨target, kind⟩ := edge
      rw [List.foldl_cons, inductionHypothesis]
      cases kind <;> simp [file]

end Buckets

/-- One pass that puts each edge behind those of its kind gives the edges by precedence. -/
theorem joined_foldl_file (edges : List (Edge N)) :
    (edges.foldl Buckets.file .empty).joined = strongestFirst edges := by
  rw [Buckets.foldl_file]
  rfl

/-! ### Sorted edges -/

/-- Whether no edge stands before one of a stronger kind. -/
def Sorted (edges : List (Edge N)) : Prop :=
  edges.Pairwise fun first second => first.kind.rank ≤ second.kind.rank

/-- Edges of one kind are sorted in any order. -/
theorem sorted_filter (edges : List (Edge N)) (kind : EdgeKind) :
    Sorted (edges.filter (·.kind == kind)) := by
  refine List.pairwise_of_forall_mem_list fun first isFirst second isSecond => ?_
  rw [eq_of_beq (List.mem_filter.mp isFirst).2, eq_of_beq (List.mem_filter.mp isSecond).2]

theorem sorted_strongestFirst (edges : List (Edge N)) : Sorted (strongestFirst edges) := by
  have before {first second : EdgeKind} (le : first.rank ≤ second.rank) :
      ∀ one ∈ edges.filter (·.kind == first), ∀ two ∈ edges.filter (·.kind == second),
        one.kind.rank ≤ two.kind.rank := by
    intro one isFirst two isSecond
    rwa [eq_of_beq (List.mem_filter.mp isFirst).2, eq_of_beq (List.mem_filter.mp isSecond).2]
  refine List.pairwise_append.mpr ⟨List.pairwise_append.mpr ⟨sorted_filter _ _,
    sorted_filter _ _, before (by decide)⟩, sorted_filter _ _, fun one member two isRuntime => ?_⟩
  rcases List.mem_append.mp member with isCompile | isReexport
  · exact before (by decide) one isCompile two isRuntime
  · exact before (by decide) one isReexport two isRuntime

/-- An edge has one kind only. -/
theorem filter_filter_kind (edges : List (Edge N)) (first second : EdgeKind) :
    (edges.filter (·.kind == first)).filter (·.kind == second) =
      if first = second then edges.filter (·.kind == second) else [] := by
  split
  · rename_i same
    rw [same, List.filter_filter]
    simp only [Bool.and_self]
  · rename_i differ
    rw [List.filter_filter, List.filter_eq_nil_iff]
    intro edge _ both
    rw [Bool.and_eq_true, beq_iff_eq, beq_iff_eq] at both
    exact differ (both.2.symm.trans both.1)

/-- Within a kind the edges stand as they stood. -/
theorem filter_strongestFirst (edges : List (Edge N)) (kind : EdgeKind) :
    (strongestFirst edges).filter (·.kind == kind) = edges.filter (·.kind == kind) := by
  rw [strongestFirst, List.filter_append, List.filter_append, filter_filter_kind,
    filter_filter_kind, filter_filter_kind]
  cases kind <;> simp

/-- What is sorted already stays as it is. -/
theorem strongestFirst_of_sorted {edges : List (Edge N)} (sorted : Sorted edges) :
    strongestFirst edges = edges := by
  induction edges with
  | nil => rfl
  | cons edge edges inductionHypothesis =>
      obtain ⟨first, rest⟩ := List.pairwise_cons.mp sorted
      have none (kind : EdgeKind) (stronger : kind.rank < edge.kind.rank) :
          edges.filter (·.kind == kind) = [] := by
        rw [List.filter_eq_nil_iff]
        intro other member same
        have le := first other member
        rw [eq_of_beq same] at le
        exact Nat.not_le.mpr stronger le
      have head : strongestFirst (edge :: edges) = edge :: strongestFirst edges := by
        obtain ⟨target, kind⟩ := edge
        cases kind with
        | compile => rfl
        | reexport => simp [strongestFirst, none .compile Nat.zero_lt_one]
        | runtime =>
            simp [strongestFirst, none .compile Nat.zero_lt_two, none .reexport Nat.one_lt_two]
      rw [head, inductionHypothesis rest]

/-- The order by precedence is the only list that is sorted and has the edges of each kind
as they stood. -/
theorem eq_strongestFirst_iff {edges sorted : List (Edge N)} :
    sorted = strongestFirst edges ↔
      Sorted sorted ∧
        ∀ kind, sorted.filter (·.kind == kind) = edges.filter (·.kind == kind) := by
  constructor
  · rintro rfl
    exact ⟨sorted_strongestFirst edges, filter_strongestFirst edges⟩
  · rintro ⟨isSorted, same⟩
    calc sorted = strongestFirst sorted := (strongestFirst_of_sorted isSorted).symm
      _ = strongestFirst edges := by rw [strongestFirst, same, same, same, strongestFirst]

/-! ### The stable sort -/

/-- Whether one edge may stand before another. -/
def mayPrecede (first second : Edge N) : Bool := decide (first.kind.rank ≤ second.kind.rank)

theorem mayPrecede_trans (first second third : Edge N) (before : mayPrecede first second = true)
    (after : mayPrecede second third = true) : mayPrecede first third = true :=
  decide_eq_true ((of_decide_eq_true before).trans (of_decide_eq_true after))

theorem mayPrecede_total (first second : Edge N) :
    (mayPrecede first second || mayPrecede second first) = true := by
  simpa only [mayPrecede, Bool.or_eq_true, decide_eq_true_eq] using Nat.le_total _ _

theorem sorted_mergeSort (edges : List (Edge N)) : Sorted (edges.mergeSort mayPrecede) :=
  (List.pairwise_mergeSort mayPrecede_trans mayPrecede_total edges).imp of_decide_eq_true

/-- Sorting by merging leaves the edges of each kind as they stood: they are sorted, so that
they remain a sublist, and none is left out. -/
theorem filter_mergeSort (edges : List (Edge N)) (kind : EdgeKind) :
    (edges.mergeSort mayPrecede).filter (·.kind == kind) = edges.filter (·.kind == kind) := by
  have kept : (edges.filter (·.kind == kind)).Sublist (edges.mergeSort mayPrecede) :=
    List.sublist_mergeSort mayPrecede_trans mayPrecede_total
      ((sorted_filter edges kind).imp decide_eq_true) List.filter_sublist
  have within := kept.filter (·.kind == kind)
  rw [filter_filter_kind, if_pos rfl] at within
  exact (within.eq_of_length ((List.mergeSort_perm _ _).filter _).length_eq.symm).symm

/-- The edges by precedence are the stable sort of the edges by kind.  One pass that puts
each edge behind those of its kind gives a permutation of the edges, repetitions included,
in which no edge stands before one of a stronger kind and the edges of each kind stand as
they stood; this is what sorting by merging gives, and doing it again changes nothing. -/
theorem strongestFirst_stable (edges : List (Edge N)) :
    (edges.foldl Buckets.file .empty).joined = strongestFirst edges ∧
    (strongestFirst edges).Perm edges ∧
    (strongestFirst edges).Pairwise (fun first second => first.kind.rank ≤ second.kind.rank) ∧
    (∀ kind, (strongestFirst edges).filter (·.kind == kind) = edges.filter (·.kind == kind)) ∧
    strongestFirst edges =
      edges.mergeSort (fun first second => decide (first.kind.rank ≤ second.kind.rank)) ∧
    strongestFirst (strongestFirst edges) = strongestFirst edges := by
  refine ⟨joined_foldl_file edges, strongestFirst_perm edges, sorted_strongestFirst edges,
    filter_strongestFirst edges, ?_, strongestFirst_of_sorted (sorted_strongestFirst edges)⟩
  exact (eq_strongestFirst_iff.mpr ⟨sorted_mergeSort edges, filter_mergeSort edges⟩).symm

end Closure

end BuildImpact
