/-
Module: BuildImpact.Proofs.Settings.Scalars
Layer: Proofs
Purpose: Each setting is read by a function of its own.  From a scalar without a tag these
  functions take what the scalar stands for: a path is its text unless it stands for nothing,
  a truth value or a count is the value that it stands for.
Imports: BuildImpact.Settings.Entries
Trusted boundary: none
Main exports: Yaml.ofText_eq_null_iff, Yaml.ofText_eq_boolean_iff, Yaml.ofText_of_natural?,
  Yaml.natural?_of_ofText, Settings.path?_untagged_none_iff, Settings.path?_untagged_some_iff,
  Settings.boolean?_untagged_iff, Settings.stands_of_count?, Settings.count?_of_stands
Open obligations: none
-/
import BuildImpact.Settings.Entries

namespace BuildImpact.Yaml

/-! ### Words -/

theorem ofText_eq_null_iff {text : String} : Value.ofText text = .null ↔ isNull text := by
  unfold Value.ofText
  grind

/-- A word for a truth value is no word for nothing. -/
theorem isNull_of_boolean? {text : String} {value : Bool}
    (spelled : boolean? text = some value) : isNull text = false := by
  unfold boolean? at spelled
  unfold isNull isNullWord
  grind

theorem ofText_eq_boolean_iff {text : String} {value : Bool} :
    Value.ofText text = .boolean value ↔ boolean? text = some value := by
  constructor
  · intro stands
    unfold Value.ofText at stands
    grind
  · intro spelled
    simp [Value.ofText, isNull_of_boolean? spelled, spelled]

/-! ### Integers -/

/-- A character that is no digit makes a text write no number. -/
theorem number?_cons_of_noDigit {base : Nat} {char : Char} (digits : List Char)
    (noDigit : hexValue? char = none) : number? base (char :: digits) = none := by
  -- Once the fold has failed, no further digit mends it.
  have stuck : ∀ digits : List Char, digits.foldl (fun number digit => do
      let value ← hexValue? digit
      if value < base then return (← number) * base + value else none) none = none := by
    intro digits
    induction digits with
    | nil => rfl
    | cons digit digits inductionHypothesis =>
        rw [List.foldl_cons]
        cases hexValue? digit with
        | none => exact inductionHypothesis
        | some value =>
            by_cases small : value < base <;> simpa [small] using inductionHypothesis
  rw [number?, List.isEmpty_cons, if_neg Bool.false_ne_true, List.foldl_cons, noDigit]
  exact stuck digits

/-- A number without a minus sign in front is an integer. -/
theorem integer?_of_natural? {text : List Char} {number : Nat}
    (written : natural? text = some number) (small : number < Nat.pow 2 128) :
    integer? text = some (Int.ofNat number) := by
  unfold integer?
  split
  · rename_i digits
    have unwritten : natural? ('-' :: digits) = none := number?_cons_of_noDigit digits rfl
    rw [unwritten] at written
    cases written
  · simp [written, small]

/-- An integer that is not negative is a number, or zero with a minus sign in front. -/
theorem natural?_of_integer? {text : List Char} {number : Nat}
    (written : integer? text = some (Int.ofNat number)) (positive : 0 < number) :
    natural? text = some number := by
  unfold integer? at written
  grind

/-- A word for nothing writes no number. -/
theorem natural?_of_isNull {text : String} (word : isNull text) :
    natural? text.toList = none := by
  simp only [isNull, isNullWord, Bool.or_eq_true, beq_iff_eq] at word
  rcases word with rfl | ((rfl | rfl) | rfl) | rfl <;> decide

/-- Nor does a word for a truth value. -/
theorem natural?_of_boolean? {text : String} {value : Bool}
    (spelled : boolean? text = some value) : natural? text.toList = none := by
  have word : ((text = "true" ∨ text = "True") ∨ text = "TRUE") ∨
      (text = "false" ∨ text = "False") ∨ text = "FALSE" := by
    unfold boolean? at spelled
    grind
  rcases word with ((rfl | rfl) | rfl) | (rfl | rfl) | rfl <;> decide

/-- A number of at most 128 bits stands for itself. -/
theorem ofText_of_natural? {text : String} {number : Nat}
    (written : natural? text.toList = some number) (small : number < Nat.pow 2 128) :
    Value.ofText text = .integer (Int.ofNat number) := by
  have isNoNull : isNull text = false := by
    rw [Bool.eq_false_iff]
    intro word
    rw [natural?_of_isNull word] at written
    cases written
  have noBoolean : boolean? text = none := by
    rw [Option.eq_none_iff_forall_ne_some]
    intro value spelled
    rw [natural?_of_boolean? spelled] at written
    cases written
  simp [Value.ofText, isNoNull, noBoolean, integer?_of_natural? written small]

theorem integer?_of_ofText {text : String} {number : Int}
    (stands : Value.ofText text = .integer number) : integer? text.toList = some number := by
  unfold Value.ofText at stands
  grind

end BuildImpact.Yaml

namespace BuildImpact.Settings

open Yaml

variable {text : String} {style : Style}

/-- A quoted scalar or a block is text. -/
theorem ofScalar_untagged (text : String) (style : Style) :
    Value.ofScalar text style none =
      .ok (if style = .plain then Value.ofText text else .text text) := by
  cases style <;> rfl

theorem isTyped_untagged (style : Style) (type : CoreTag) :
    isTyped style none type = decide (style = .plain) := by
  cases style <;> rfl

/-! ### Paths -/

/-- From a scalar without a tag a path is read whatever it is, and none if it stands for
nothing. -/
theorem path?_untagged (text : String) (style : Style) :
    path? (.scalar text style none) =
      .ok (if style = .plain ∧ isNull text then none else some text) := by
  cases style <;> simp [path?]

theorem path?_untagged_none_iff :
    path? (.scalar text style none) = .ok none ↔
      Value.ofScalar text style none = .ok .null := by
  rw [path?_untagged, ofScalar_untagged]
  by_cases plain : style = .plain <;> simp [plain, ofText_eq_null_iff]

theorem path?_untagged_some_iff {path : String} :
    path? (.scalar text style none) = .ok (some path) ↔
      Value.ofScalar text style none ≠ .ok .null ∧ path = text := by
  rw [path?_untagged, ofScalar_untagged]
  by_cases plain : style = .plain <;>
    simp only [plain, ofText_eq_null_iff, true_and, false_and, if_true, if_false, ne_eq,
      Except.ok.injEq]
  · cases isNull text <;> simp [eq_comm]
  · simp [eq_comm]

/-! ### Truth values and counts -/

theorem boolean?_untagged_iff {value : Bool} :
    Settings.boolean? (.scalar text style none) = some value ↔
      Value.ofScalar text style none = .ok (.boolean value) := by
  rw [Settings.boolean?, isTyped_untagged, ofScalar_untagged]
  by_cases plain : style = .plain <;> simp [plain, ofText_eq_boolean_iff]

theorem count?_untagged_iff {count : Nat} :
    count? (.scalar text style none) = some count ↔
      style = .plain ∧ natural? text.toList = some count ∧ count < UInt64.size := by
  rw [count?, isTyped_untagged]
  by_cases plain : style = .plain <;> simp [plain, Option.filter_eq_some_iff]

/-- A count is the integer that its scalar stands for. -/
theorem stands_of_count? {count : Nat} (read : count? (.scalar text style none) = some count) :
    Value.ofScalar text style none = .ok (.integer (Int.ofNat count)) ∧ count < UInt64.size := by
  obtain ⟨rfl, written, small⟩ := count?_untagged_iff.mp read
  have fits : UInt64.size < Nat.pow 2 128 := by decide
  have stands := ofText_of_natural? written (Nat.lt_trans small fits)
  exact ⟨by rw [ofScalar_untagged, if_pos rfl, stands], small⟩

/-- A scalar that stands for an integer of at most 64 bits is a count.  Only a zero with a
minus sign in front is none. -/
theorem count?_of_stands {count : Nat}
    (stands : Value.ofScalar text style none = .ok (.integer (Int.ofNat count)))
    (small : count < UInt64.size) (positive : 0 < count) :
    count? (.scalar text style none) = some count := by
  rw [ofScalar_untagged] at stands
  by_cases plain : style = .plain
  · rw [if_pos plain] at stands
    have written := natural?_of_integer? (integer?_of_ofText (Except.ok.inj stands)) positive
    exact count?_untagged_iff.mpr ⟨plain, written, small⟩
  · rw [if_neg plain] at stands
    cases stands

end BuildImpact.Settings
