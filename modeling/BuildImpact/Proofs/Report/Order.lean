/-
Module: BuildImpact.Proofs.Report.Order
Layer: Proofs
Purpose: The order in which reports list units.  Sorting loses nothing and repeats nothing,
  and different units, or entries of different units, stand in the increasing order of
  the bytes of their names.
Imports: BuildImpact.Command.Query, BuildImpact.Proofs.Text.ByteOrder
Trusted boundary: none
Main exports: Query.mem_sortUnits, Query.inByteOrder_sortUnits, Query.mem_sortEntries,
  Query.nodup_toList, Query.inByteOrder_sortEntries
Open obligations: none
-/
import BuildImpact.Command.Query
import BuildImpact.Proofs.Text.ByteOrder

namespace BuildImpact.Query

open Utf8 (InByteOrder)

@[simp] theorem mem_sortUnits {units : List String} {unit : String} :
    unit ∈ sortUnits units ↔ unit ∈ units :=
  (List.mergeSort_perm _ _).mem_iff

theorem inByteOrder_sortUnits {units : List String} (different : units.Nodup) :
    InByteOrder (sortUnits units) := by
  rw [← List.map_id units] at different
  have ordered := Utf8.inByteOrder_mergeSort id different
  rw [List.map_id] at ordered
  exact ordered

@[simp] theorem mem_sortEntries {α : Type} {entries : List (String × α)} {entry : String × α} :
    entry ∈ sortEntries entries ↔ entry ∈ entries :=
  (List.mergeSort_perm _ _).mem_iff

theorem nodup_toList {α : Type} (map : Std.HashMap String α) : (map.toList.map (·.1)).Nodup := by
  rw [Std.HashMap.map_fst_toList_eq_keys]
  exact Std.HashMap.nodup_keys

/-- Entries of different units stand in the order of these. -/
theorem inByteOrder_sortEntries {α : Type} {entries : List (String × α)}
    (different : (entries.map (·.1)).Nodup) : InByteOrder ((sortEntries entries).map (·.1)) :=
  Utf8.inByteOrder_mergeSort Prod.fst different

end BuildImpact.Query
