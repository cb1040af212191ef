/-
Module: BuildImpact.Proofs.Json.Listed
Layer: Proofs
Purpose: The separators of lists and objects are taken as the grammar has them.
Imports: BuildImpact.Proofs.Json.Skip
Trusted boundary: none
Main exports: Json.nextKey_eq_item_iff, Json.nextKey_eq_closed_iff, Json.nextItem_eq_item_iff,
  Json.nextItem_eq_closed_iff, Json.closeList_eq_ok_iff, Json.readColon_eq_ok_iff,
  Json.readEnd_eq_ok_iff, Json.Listed.ends
Open obligations: none
-/
import BuildImpact.Proofs.Json.Skip

namespace BuildImpact.Json

/-! ### What stands in front of an item -/

/-- Behind a separator that is followed by neither a blank nor the end, an item starts. -/
theorem Comma.skipBlanks_eq {isFirst : Bool} {bytes more : List UInt8} {first : UInt8}
    (comma : Comma isFirst bytes (first :: more)) (dark : isBlank first = false) :
    match isFirst with
    | true => skipBlanks bytes = first :: more
    | false => ∃ after, skipBlanks bytes = 0x2c :: after ∧ skipBlanks after = first :: more := by
  cases isFirst with
  | true => exact Token.skipBlanks_eq comma dark
  | false =>
      obtain ⟨after, isComma, blanks⟩ := comma
      exact ⟨after, isComma.skipBlanks_eq (by decide), Token.skipBlanks_eq blanks dark⟩

theorem comma_of_skipBlanks {bytes after : List UInt8} (split : skipBlanks bytes = 0x2c :: after) :
    Comma false bytes (skipBlanks after) :=
  ⟨after, token_of_skipBlanks split, blanks_skipBlanks after⟩

theorem Comma.trans {isFirst : Bool} {bytes middle start : List UInt8}
    (comma : Comma isFirst bytes middle) (blanks : Blanks middle start) :
    Comma isFirst bytes start := by
  cases isFirst with
  | true => exact Blanks.trans comma blanks
  | false =>
      obtain ⟨after, isComma, behind⟩ := comma
      exact ⟨after, isComma, behind.trans blanks⟩

/-- Where a list goes on, a number can end. -/
theorem Comma.ends {bytes start : List UInt8} (comma : Comma false bytes start) : Ends bytes := by
  obtain ⟨after, isComma, -⟩ := comma
  exact isComma.ends (by decide)

theorem Listed.ends {α : Type} {Item : List UInt8 → α → List UInt8 → Prop} {closer : UInt8}
    (mark : closer ∈ [0x2c, 0x5d, 0x7d]) {bytes rest : List UInt8} {values : List α}
    (listed : Listed Item closer false bytes values rest) : Ends bytes := by
  cases listed with
  | close closed => exact closed.ends mark
  | item comma => exact comma.ends

/-! ### Objects -/

theorem nextKey_eq_closed_iff {isFirst : Bool} {bytes rest : List UInt8} :
    nextKey isFirst bytes = .ok (.closed rest) ↔ Token 0x7d bytes rest := by
  constructor
  · intro taken
    unfold nextKey at taken
    split at taken
    · cases taken
    rename_i first after split
    split at taken
    · rename_i isCloser
      cases eq_of_beq isCloser
      cases taken
      exact token_of_skipBlanks split
    split at taken
    · split at taken <;> cases taken
    split at taken
    · split at taken
      · cases taken
      · split at taken
        · cases taken
        · split at taken <;> cases taken
    · cases taken
  · intro closed
    simp [nextKey, closed.skipBlanks_eq (by decide)]

theorem nextKey_eq_item_iff {isFirst : Bool} {bytes rest : List UInt8} :
    nextKey isFirst bytes = .ok (.item rest) ↔ Comma isFirst bytes (0x22 :: rest) := by
  constructor
  · intro taken
    unfold nextKey at taken
    split at taken
    · cases taken
    rename_i first after split
    split at taken
    · cases taken
    split at taken
    · rename_i isStart
      cases isStart
      split at taken
      · rename_i isQuote
        cases eq_of_beq isQuote
        cases taken
        exact token_of_skipBlanks split
      · cases taken
    rename_i notStart
    rw [Bool.not_eq_true] at notStart
    cases notStart
    split at taken
    · rename_i isComma
      cases eq_of_beq isComma
      split at taken
      · cases taken
      rename_i second left next
      split at taken
      · rename_i isQuote
        cases eq_of_beq isQuote
        cases taken
        rw [← next]
        exact comma_of_skipBlanks split
      · split at taken <;> cases taken
    · cases taken
  · intro comma
    have split := comma.skipBlanks_eq (by decide)
    cases isFirst with
    | true =>
        dsimp only at split
        simp [nextKey, split]
    | false =>
        obtain ⟨after, split, next⟩ := split
        simp [nextKey, split, next]

/-! ### Lists -/

theorem nextItem_eq_closed_iff {isFirst : Bool} {bytes rest : List UInt8} :
    nextItem isFirst bytes = .ok (.closed rest) ↔ Token 0x5d bytes rest := by
  constructor
  · intro taken
    unfold nextItem at taken
    split at taken
    · cases taken
    rename_i first after split
    split at taken
    · rename_i isCloser
      cases eq_of_beq isCloser
      cases taken
      exact token_of_skipBlanks split
    split at taken
    · cases taken
    split at taken
    · split at taken
      · cases taken
      · split at taken <;> cases taken
    · cases taken
  · intro closed
    simp [nextItem, closed.skipBlanks_eq (by decide)]

theorem comma_of_nextItem {isFirst : Bool} {bytes start : List UInt8}
    (taken : nextItem isFirst bytes = .ok (.item start)) : Comma isFirst bytes start := by
  unfold nextItem at taken
  split at taken
  · cases taken
  rename_i first after split
  split at taken
  · cases taken
  split at taken
  · rename_i isStart
    cases isStart
    cases taken
    rw [← split]
    exact blanks_skipBlanks bytes
  rename_i notStart
  rw [Bool.not_eq_true] at notStart
  cases notStart
  split at taken
  · rename_i isComma
    cases eq_of_beq isComma
    split at taken
    · cases taken
    rename_i second left next
    split at taken
    · cases taken
    · cases taken
      rw [← next]
      exact comma_of_skipBlanks split
  · cases taken

/-- An item is found that does not start with the closing byte. -/
theorem nextItem_of_comma {isFirst : Bool} {bytes more : List UInt8} {first : UInt8}
    (comma : Comma isFirst bytes (first :: more)) (dark : isBlank first = false)
    (notClosed : first ≠ 0x5d) : nextItem isFirst bytes = .ok (.item (first :: more)) := by
  have split := comma.skipBlanks_eq dark
  cases isFirst with
  | true =>
      dsimp only at split
      simp [nextItem, split, notClosed]
  | false =>
      obtain ⟨after, split, next⟩ := split
      simp [nextItem, split, next, notClosed]

theorem closeList_eq_ok_iff {bytes rest : List UInt8} :
    closeList bytes = .ok rest ↔ Token 0x5d bytes rest := by
  constructor
  · intro taken
    unfold closeList at taken
    split at taken
    · cases taken
    rename_i first after split
    split at taken
    · rename_i isCloser
      cases eq_of_beq isCloser
      cases taken
      exact token_of_skipBlanks split
    split at taken
    · split at taken
      · cases taken
      · split at taken <;> cases taken
    · cases taken
  · intro closed
    simp [closeList, closed.skipBlanks_eq (by decide)]

/-! ### Colons and the end -/

theorem readColon_eq_ok_iff {bytes rest : List UInt8} :
    readColon bytes = .ok rest ↔ Token 0x3a bytes rest := by
  constructor
  · intro taken
    unfold readColon at taken
    split at taken
    · cases taken
    rename_i first after split
    split at taken
    · rename_i isColon
      cases eq_of_beq isColon
      cases taken
      exact token_of_skipBlanks split
    · cases taken
  · intro colon
    simp [readColon, colon.skipBlanks_eq (by decide)]

theorem readEnd_eq_ok_iff {bytes : List UInt8} : readEnd bytes = .ok () ↔ Blanks bytes [] := by
  constructor
  · intro taken
    unfold readEnd at taken
    split at taken
    · rename_i none
      rw [← none]
      exact blanks_skipBlanks bytes
    · cases taken
  · intro blanks
    have none : skipBlanks bytes = [] := blanks.skipBlanks_eq
    simp [readEnd, none]

end BuildImpact.Json
