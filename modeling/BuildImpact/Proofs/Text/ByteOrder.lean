/-
Module: BuildImpact.Proofs.Text.ByteOrder
Layer: Proofs
Purpose: The order of texts is the order of their UTF-8 bytes.  Of two characters the one
  with the smaller number has the smaller bytes, and the difference shows before either
  of them ends; so texts compare by their bytes as they compare by their characters, and
  what is sorted by texts stands in the order of bytes.
Imports: BuildImpact.Text.Utf8
Trusted boundary: none
Main exports: Utf8.utf8EncodeChar_append_lt, Utf8.encode_lt_encode_iff, Utf8.InByteOrder,
  Utf8.inByteOrder_mergeSort
Open obligations: none
-/
import BuildImpact.Text.Utf8

namespace BuildImpact.Utf8

variable {first second : Nat} {front back : List UInt8}

/-- Lists of bytes compare by their first bytes if these differ. -/
theorem cons_lt_cons_of_lt (less : first < second) (byte : second < 256) :
    UInt8.ofNat first :: front < UInt8.ofNat second :: back := by
  rw [List.cons_lt_cons_iff, UInt8.lt_iff_toNat_lt, UInt8.toNat_ofNat', UInt8.toNat_ofNat']
  exact .inl (by omega)

/-- They compare by what follows if their first bytes are equal. -/
theorem cons_lt_cons_of_le (le : first ≤ second) (byte : second < 256)
    (rest : first = second → front < back) :
    UInt8.ofNat first :: front < UInt8.ofNat second :: back := by
  rcases Nat.lt_or_eq_of_le le with less | same
  · exact cons_lt_cons_of_lt less byte
  · rw [same, List.cons_lt_cons_iff]
    exact .inr ⟨rfl, rest same⟩

/-- The smaller of two characters has the smaller bytes, whatever follows either of them:
with fewer bytes the first one is smaller, and with as many the bytes are the digits of
the number to the base 64. -/
theorem utf8EncodeChar_append_lt {first second : Char} (less : first < second)
    (front back : List UInt8) :
    String.utf8EncodeChar first ++ front < String.utf8EncodeChar second ++ back := by
  have smaller : first.val.toNat < second.val.toNat := UInt32.lt_iff_toNat_lt.mp less
  have valid : second.val.toNat < 0x110000 := by
    have valid := second.valid
    simp only [UInt32.isValidChar, Nat.isValidChar] at valid
    omega
  rw [String.utf8EncodeChar, String.utf8EncodeChar]
  generalize first.val.toNat = code at smaller
  generalize second.val.toNat = larger at smaller valid
  split
  · split
    · exact cons_lt_cons_of_lt smaller (by omega)
    split
    · exact cons_lt_cons_of_lt (by omega) (by omega)
    split
    · exact cons_lt_cons_of_lt (by omega) (by omega)
    · exact cons_lt_cons_of_lt (by omega) (by omega)
  split
  · rw [if_neg (by omega)]
    split
    · refine cons_lt_cons_of_le (by omega) (by omega) fun same => ?_
      exact cons_lt_cons_of_lt (by omega) (by omega)
    split
    · exact cons_lt_cons_of_lt (by omega) (by omega)
    · exact cons_lt_cons_of_lt (by omega) (by omega)
  split
  · rw [if_neg (by omega), if_neg (by omega)]
    split
    · refine cons_lt_cons_of_le (by omega) (by omega) fun same => ?_
      refine cons_lt_cons_of_le (by omega) (by omega) fun same => ?_
      exact cons_lt_cons_of_lt (by omega) (by omega)
    · exact cons_lt_cons_of_lt (by omega) (by omega)
  · rw [if_neg (by omega), if_neg (by omega), if_neg (by omega)]
    refine cons_lt_cons_of_le (by omega) (by omega) fun same => ?_
    refine cons_lt_cons_of_le (by omega) (by omega) fun same => ?_
    refine cons_lt_cons_of_le (by omega) (by omega) fun same => ?_
    exact cons_lt_cons_of_lt (by omega) (by omega)

/-- Lists of characters compare as their bytes do. -/
theorem flatMap_lt_flatMap {first second : List Char} (less : first < second) :
    first.flatMap String.utf8EncodeChar < second.flatMap String.utf8EncodeChar := by
  induction first generalizing second with
  | nil =>
      cases second with
      | nil => cases less
      | cons char chars =>
          have some : String.utf8EncodeChar char ≠ [] := String.utf8EncodeChar_ne_nil
          obtain ⟨byte, bytes, encoded⟩ := List.exists_cons_of_ne_nil some
          rw [List.flatMap_cons, encoded]
          exact List.nil_lt_cons _ _
  | cons char chars inductionHypothesis =>
      cases second with
      | nil => cases less
      | cons other others =>
          rw [List.flatMap_cons, List.flatMap_cons]
          rcases List.cons_lt_cons_iff.mp less with smaller | ⟨rfl, later⟩
          · exact utf8EncodeChar_append_lt smaller _ _
          · exact List.append_left_lt (inductionHypothesis later)

/-- Texts compare as their bytes do. -/
theorem encode_lt_encode_iff {first second : String} :
    encode first < encode second ↔ first < second := by
  have forth : ∀ {first second : String}, first < second → encode first < encode second := by
    intro first second less
    have characters : first.toList < second.toList := less
    have bytes := flatMap_lt_flatMap characters
    rwa [← encode_ofList, ← encode_ofList, String.ofList_toList, String.ofList_toList] at bytes
  refine ⟨fun less => Classical.byContradiction fun notLess => ?_, forth⟩
  by_cases more : second < first
  · exact List.lt_asymm less (forth more)
  · rw [String.le_antisymm more notLess] at less
    exact List.lt_irrefl _ less

/-! ### Sorting -/

/-- Texts in the strictly increasing order of their bytes; none is there twice. -/
def InByteOrder (texts : List String) : Prop :=
  texts.Pairwise fun first second => encode first < encode second

/-- Sorting by texts puts things with different texts in the order of bytes. -/
theorem inByteOrder_mergeSort {α : Type} (text : α → String) {items : List α}
    (different : (items.map text).Nodup) :
    InByteOrder ((items.mergeSort fun first second => decide (text first ≤ text second)).map
      text) := by
  let before (first second : α) : Bool := decide (text first ≤ text second)
  have sorted : (items.mergeSort before).Pairwise fun first second => before first second := by
    refine List.pairwise_mergeSort (fun first second third => ?_) (fun first second => ?_) items
    · simpa only [before, decide_eq_true_eq] using String.le_trans
    · simpa only [before, Bool.or_eq_true, decide_eq_true_eq] using String.le_total _ _
  have apart : ((items.mergeSort before).map text).Nodup :=
    (((List.mergeSort_perm items before).map text).nodup_iff).mpr different
  refine List.pairwise_map.mpr ((sorted.and (List.pairwise_map.mp apart)).imp ?_)
  rintro first second ⟨le, differ⟩
  exact encode_lt_encode_iff.mpr (Std.lt_of_le_of_ne (of_decide_eq_true le) differ)

end BuildImpact.Utf8
