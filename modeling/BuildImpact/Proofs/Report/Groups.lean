/-
Module: BuildImpact.Proofs.Report.Groups
Layer: Proofs
Purpose: The groups in which the entries of a report are shown.  Entries of different units
  that stand in the order of their units fall into groups that stand in this order, each
  entry into one.  The depths of what a root reaches have no gap, since whatever is some
  edges away is behind something one edge nearer; so no group of depths is left out.
Imports: Mathlib.Order.Bounds.Basic, BuildImpact.Proofs.Depths.Minimal,
  BuildImpact.Proofs.Report.Order
Trusted boundary: none
Main exports: Utf8.InByteOrder.nodup, Utf8.InByteOrder.eq_of_mem_iff, Report.mem_group_iff,
  Report.inByteOrder_group, Report.existsUnique_group, Report.length_filter_ne,
  Report.isGreatest_deepest, Report.depthGroups_eq_map, Depths.exists_nearest_of_le
Open obligations: none
-/
import Mathlib.Order.Bounds.Basic
import BuildImpact.Proofs.Depths.Minimal
import BuildImpact.Proofs.Report.Order

namespace BuildImpact

namespace Utf8

/-- No text stands twice in the order of bytes. -/
theorem InByteOrder.nodup {texts : List String} (ordered : InByteOrder texts) : texts.Nodup := by
  refine ordered.imp ?_
  rintro first _ less rfl
  exact List.lt_irrefl _ less

/-- Two lists of the same texts in the order of bytes are equal. -/
theorem InByteOrder.eq_of_mem_iff {texts others : List String} (ordered : InByteOrder texts)
    (alsoOrdered : InByteOrder others) (same : ∀ text, text ∈ texts ↔ text ∈ others) :
    texts = others :=
  ((List.perm_ext_iff_of_nodup ordered.nodup alsoOrdered.nodup).mpr same).eq_of_pairwise
    (fun _ _ _ _ less greater => absurd greater (List.lt_asymm less)) ordered alsoOrdered

end Utf8

namespace Report

open Utf8 (InByteOrder)

/-! ### Entries with one value -/

section Entries

variable {α : Type} [BEq α] [LawfulBEq α] {entries : List (String × α)}

theorem mem_group_iff {unit : String} {value : α} :
    unit ∈ (entries.filter (·.2 == value)).map (·.1) ↔ (unit, value) ∈ entries := by
  rw [List.mem_map]
  constructor
  · rintro ⟨⟨_, _⟩, chosen, rfl⟩
    obtain ⟨member, same⟩ := List.mem_filter.mp chosen
    cases eq_of_beq same
    exact member
  · intro member
    exact ⟨_, List.mem_filter.mpr ⟨member, beq_self_eq_true value⟩, rfl⟩

omit [LawfulBEq α] in
/-- The units of a group stand in the order of the entries. -/
theorem inByteOrder_group (ordered : InByteOrder (entries.map (·.1))) (value : α) :
    InByteOrder ((entries.filter (·.2 == value)).map (·.1)) :=
  ordered.sublist (List.filter_sublist.map _)

/-- Where each unit has one entry, this falls into one group. -/
theorem existsUnique_group (different : (entries.map (·.1)).Nodup) {entry : String × α}
    (member : entry ∈ entries) :
    ∃! value, entry.1 ∈ (entries.filter (·.2 == value)).map (·.1) := by
  refine ⟨entry.2, mem_group_iff.mpr member, fun value among => ?_⟩
  have other : (entry.1, value) ∈ entries := mem_group_iff.mp among
  exact congrArg Prod.snd (List.inj_on_of_nodup_map different other member rfl)

omit [BEq α] [LawfulBEq α] in
/-- Without one of the different units there is one entry less. -/
theorem length_filter_ne (different : (entries.map (·.1)).Nodup) {unit : String}
    (member : unit ∈ entries.map (·.1)) :
    (entries.filter (·.1 != unit)).length = entries.length - 1 := by
  calc (entries.filter (·.1 != unit)).length
      = ((entries.map (·.1)).filter (· != unit)).length := by
        rw [List.filter_map, List.length_map]
        rfl
    _ = ((entries.map (·.1)).erase unit).length := by rw [different.erase_eq_filter]
    _ = entries.length - 1 := by rw [List.length_erase_of_mem member, List.length_map]

end Entries

/-! ### Groups of depths -/

variable {depths : List (String × Nat)}

theorem isGreatest_foldl_max (values : List Nat) (start : Nat) :
    IsGreatest {value | value = start ∨ value ∈ values} (values.foldl max start) := by
  induction values generalizing start with
  | nil => exact ⟨.inl rfl, fun value member => (member.resolve_right List.not_mem_nil).le⟩
  | cons first values inductionHypothesis =>
      obtain ⟨among, bound⟩ := inductionHypothesis (max start first)
      have least : max start first ≤ values.foldl max (max start first) := bound (.inl rfl)
      constructor
      · rcases among with isMax | later
        · rcases max_choice start first with isStart | isFirst
          · exact .inl (isMax.trans isStart)
          · exact .inr (List.mem_cons.mpr (.inl (isMax.trans isFirst)))
        · exact .inr (List.mem_cons_of_mem _ later)
      · rintro value (rfl | member)
        · exact (le_max_left _ _).trans least
        · rcases List.mem_cons.mp member with rfl | later
          · exact (le_max_right _ _).trans least
          · exact bound (.inr later)

/-- The deepest depth is the largest one, if some unit has depth zero. -/
theorem isGreatest_deepest {root : String} (member : (root, 0) ∈ depths) :
    IsGreatest {depth | ∃ unit, (unit, depth) ∈ depths} (deepest depths) := by
  have noted (depth : Nat) : (∃ unit, (unit, depth) ∈ depths) ↔
      depth = 0 ∨ depth ∈ depths.map (·.2) := by
    rw [List.mem_map]
    constructor
    · rintro ⟨unit, among⟩
      exact .inr ⟨_, among, rfl⟩
    · rintro (rfl | ⟨⟨unit, _⟩, among, rfl⟩)
      · exact ⟨root, member⟩
      · exact ⟨unit, among⟩
  simp only [noted]
  exact isGreatest_foldl_max (depths.map (·.2)) 0

/-- Where there is a unit at every depth down to the deepest, every depth has its group. -/
theorem depthGroups_eq_map
    (filled : ∀ depth ∈ List.range' 1 (deepest depths), ∃ unit, (unit, depth) ∈ depths) :
    depthGroups depths =
      (List.range' 1 (deepest depths)).map fun depth => (depth, depthGroup depths depth) := by
  rw [depthGroups, List.filter_eq_self]
  intro group member
  obtain ⟨depth, inRange, rfl⟩ := List.mem_map.mp member
  obtain ⟨unit, among⟩ := filled depth inRange
  have listed : unit ∈ depthGroup depths depth := mem_group_iff.mpr among
  rw [Bool.not_eq_true', List.isEmpty_eq_false_iff]
  exact List.ne_nil_of_mem listed

end Report

namespace Depths

variable {N : Type} [BEq N] [Hashable N] {graph : BuildGraph N} {root : N}

open Route (Nearest)

/-- Down to any depth that a unit has, some unit is at each depth. -/
theorem exists_nearest_of_le {unit : N} {shallow depth : Nat} (le : shallow ≤ depth)
    (nearest : Nearest graph .anyEdge root depth unit) :
    ∃ other, Nearest graph .anyEdge root shallow other := by
  induction depth, le using Nat.le_induction generalizing unit with
  | base => exact ⟨unit, nearest⟩
  | succ depth _ inductionHypothesis =>
      obtain ⟨earlier, onLayer, _⟩ := nearest.predecessor
      exact inductionHypothesis (nearest_of_onLayer onLayer)

end Depths

end BuildImpact
