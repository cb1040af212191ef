/-
Module: BuildImpact.Proofs.Json.Number
Layer: Proofs
Purpose: Numbers are read as the grammar has them.  A number that is passed over has the
  form of one.  A number that is read for an integer is one whose digits do not start
  with a superfluous zero and, for a negative one, are not all zero; everything with a
  point or an exponent, and minus zero, comes out as a float.
Imports: Mathlib.Data.List.TakeWhile, BuildImpact.Proofs.Json.Text
Trusted boundary: none
Main exports: Json.Number.unsigned_of_skip, Json.Number.Unsigned.skip_eq,
  Json.integer_of_readInteger, Json.readInteger_of_integer
Open obligations: none
-/
import Mathlib.Data.List.TakeWhile
import BuildImpact.Proofs.Json.Text

namespace BuildImpact.Json

/-! ### Runs of digits -/

/-- Whether a run of digits can end here. -/
def NoDigit (rest : List UInt8) : Prop := ∀ byte ∈ rest.head?, isDigit byte = false

theorem Ends.noDigit {rest : List UInt8} (ends : Ends rest) : NoDigit rest :=
  fun byte head => (ends byte head).1

/-- A run takes all digits there are. -/
theorem Digits.digitRun_eq {digits bytes rest : List UInt8} (run : Digits digits bytes rest)
    (stops : NoDigit rest) : digitRun bytes = (digits, rest) := by
  have last : rest.takeWhile isDigit = [] ∧ rest.dropWhile isDigit = rest := by
    cases rest with
    | nil => simp
    | cons byte rest => simp [stops byte rfl]
  rw [digitRun, run.split, List.takeWhile_append_of_pos run.decimal,
    List.dropWhile_append_of_pos run.decimal, last.1, last.2, List.append_nil]

theorem digits_of_digitRun {digits bytes rest : List UInt8}
    (run : digitRun bytes = (digits, rest)) (some : digits ≠ []) : Digits digits bytes rest := by
  rw [digitRun, Prod.mk.injEq] at run
  obtain ⟨rfl, rfl⟩ := run
  exact ⟨(List.takeWhile_append_dropWhile).symm, some, fun digit => List.mem_takeWhile_imp⟩

/-- A digit with the digits behind it. -/
theorem digits_cons {first : UInt8} (digit : isDigit first = true) (bytes : List UInt8) :
    Digits (first :: bytes.takeWhile isDigit) (first :: bytes) (bytes.dropWhile isDigit) where
  split := by simp
  some := List.cons_ne_nil _ _
  decimal := List.forall_mem_cons.mpr ⟨digit, fun digit => List.mem_takeWhile_imp⟩

/-- The run of digits behind a first one. -/
theorem Digits.exists_cons {digits bytes rest : List UInt8} (run : Digits digits bytes rest)
    (stops : NoDigit rest) :
    ∃ first more, bytes = first :: more ∧ isDigit first = true ∧ more.dropWhile isDigit = rest := by
  obtain ⟨first, later, rfl⟩ := List.exists_cons_of_ne_nil run.some
  have digit := run.decimal first List.mem_cons_self
  refine ⟨first, later ++ rest, by rw [run.split, List.cons_append], digit, ?_⟩
  have dropped := congrArg Prod.snd (run.digitRun_eq stops)
  rwa [digitRun, run.split, List.cons_append, List.dropWhile_cons_of_pos digit] at dropped

theorem whole_zero (rest : List UInt8) : Whole [0x30] (0x30 :: rest) rest where
  split := rfl
  some := List.cons_ne_nil _ _
  decimal := List.forall_mem_singleton.mpr (by decide)
  zeroAlone _ := rfl

/-- Behind a leading zero there is no further digit. -/
theorem Whole.of_zero {digits after rest : List UInt8}
    (whole : Whole digits (0x30 :: after) rest) : digits = [0x30] ∧ after = rest := by
  obtain ⟨first, later, rfl⟩ := List.exists_cons_of_ne_nil whole.some
  have split := whole.split
  rw [List.cons_append, List.cons.injEq] at split
  have alone := whole.zeroAlone (by rw [← split.1, List.head?_cons])
  rw [List.cons.injEq] at alone
  exact ⟨by rw [alone.1, alone.2], by rw [split.2, alone.2, List.nil_append]⟩

namespace Number

/-! ### Numbers that are passed over -/

theorem exponent_of_skipExponent {letter : UInt8} (marks : letter ∈ [0x65, 0x45])
    {bytes rest : List UInt8} (taken : skipExponent bytes = .ok rest) :
    Exponent (letter :: bytes) rest := by
  unfold skipExponent at taken
  split at taken
  · cases taken
  rename_i isPositive digit after sign
  split at taken
  · rename_i isDigit
    cases taken
    unfold exponentSign at sign
    split at sign
    · cases sign
      exact .signed marks (by decide) (digits_cons isDigit after)
    · cases sign
      exact .signed marks (by decide) (digits_cons isDigit after)
    · cases sign
      exact .unsigned marks (digits_cons isDigit after)
  · cases taken

theorem exponent_of_skipTail {bytes rest : List UInt8} (taken : skipTail bytes = .ok rest) :
    Exponent bytes rest := by
  unfold skipTail at taken
  split at taken
  · exact exponent_of_skipExponent (by decide) taken
  · exact exponent_of_skipExponent (by decide) taken
  · cases taken
    exact .none _

theorem fraction_of_skipRest {bytes rest : List UInt8} (taken : skipRest bytes = .ok rest) :
    ∃ later, Fraction bytes later ∧ Exponent later rest := by
  unfold skipRest at taken
  split at taken
  · split at taken
    · cases taken
    · rename_i digits later some run
      exact ⟨later, .digits (digits_of_digitRun run fun none => some (by rw [none])),
        exponent_of_skipTail taken⟩
  · exact ⟨bytes, .none bytes, exponent_of_skipTail taken⟩

/-- What is passed over is a number without a sign. -/
theorem unsigned_of_skip {bytes rest : List UInt8} (taken : skip bytes = .ok rest) :
    Unsigned bytes rest := by
  unfold skip at taken
  split at taken
  · cases taken
  · rename_i after
    have more : skipRest after = .ok rest := by
      split at taken
      · exact taken
      · split at taken
        · cases taken
        · exact taken
    obtain ⟨later, fraction, exponent⟩ := fraction_of_skipRest more
    exact .intro (whole_zero after) fraction exponent
  · rename_i first after notZero
    split at taken
    · rename_i digit
      obtain ⟨later, fraction, exponent⟩ := fraction_of_skipRest taken
      refine .intro ⟨digits_cons digit after, fun leading => ?_⟩ fraction exponent
      rw [List.head?_cons, Option.some.injEq] at leading
      exact absurd leading notZero
    · cases taken

theorem skipExponent_of_digits {isPositive : Bool} {digits bytes behind rest : List UInt8}
    (sign : exponentSign bytes = (isPositive, behind)) (run : Digits digits behind rest)
    (stops : NoDigit rest) : skipExponent bytes = .ok rest := by
  obtain ⟨first, more, rfl, digit, dropped⟩ := run.exists_cons stops
  simp [skipExponent, sign, digit, dropped]

theorem exponentSign_of_isDigit {first : UInt8} (digit : isDigit first = true)
    (rest : List UInt8) : exponentSign (first :: rest) = (true, first :: rest) := by
  unfold exponentSign
  split
  · rename_i same
    cases same
    cases digit
  · rename_i same
    cases same
    cases digit
  · rfl

theorem Exponent.skipTail_eq {bytes rest : List UInt8} (exponent : Exponent bytes rest)
    (ends : Ends rest) : skipTail bytes = .ok rest := by
  have letters : ∀ {letter : UInt8} {bytes : List UInt8}, letter ∈ [0x65, 0x45] →
      skipTail (letter :: bytes) = skipExponent bytes := by
    intro letter bytes marks
    simp only [List.mem_cons, List.not_mem_nil, or_false] at marks
    rcases marks with rfl | rfl <;> rfl
  cases exponent with
  | none =>
      unfold skipTail
      split
      · exact absurd (ends _ rfl).2 (by decide)
      · exact absurd (ends _ rfl).2 (by decide)
      · rfl
  | unsigned marks behind =>
      rw [letters marks]
      obtain ⟨first, more, rfl, digit, -⟩ := behind.exists_cons ends.noDigit
      exact skipExponent_of_digits (exponentSign_of_isDigit digit more) behind ends.noDigit
  | signed marks signs behind =>
      rw [letters marks]
      simp only [List.mem_cons, List.not_mem_nil, or_false] at signs
      rcases signs with rfl | rfl
      · exact skipExponent_of_digits rfl behind ends.noDigit
      · exact skipExponent_of_digits rfl behind ends.noDigit

/-- In front of an exponent, a fraction and the digits before it can end. -/
theorem Exponent.head {bytes rest : List UInt8} (exponent : Exponent bytes rest)
    (ends : Ends rest) : NoDigit bytes ∧ bytes.head? ≠ some 0x2e := by
  have letters : ∀ {letter : UInt8}, letter ∈ [0x65, 0x45] →
      isDigit letter = false ∧ letter ≠ 0x2e := by
    intro letter marks
    simp only [List.mem_cons, List.not_mem_nil, or_false] at marks
    rcases marks with rfl | rfl <;> decide
  cases exponent with
  | none => exact ⟨ends.noDigit, fun point => absurd (ends _ point).2 (by decide)⟩
  | unsigned marks | signed marks =>
      refine ⟨?_, by simpa using (letters marks).2⟩
      rintro byte ⟨⟩
      exact (letters marks).1

theorem Fraction.skipRest_eq {bytes later : List UInt8} (fraction : Fraction bytes later)
    (stops : NoDigit later) (noPoint : later.head? ≠ some 0x2e) :
    skipRest bytes = skipTail later := by
  cases fraction with
  | none =>
      unfold skipRest
      split
      · exact absurd rfl noPoint
      · rfl
  | digits behind =>
      unfold skipRest
      simp only [behind.digitRun_eq stops]
      split
      · rename_i none
        exact absurd (congrArg Prod.fst none) behind.some
      · rename_i same
        cases same
        rfl

theorem Fraction.head {bytes later : List UInt8} (fraction : Fraction bytes later)
    (stops : NoDigit later) : NoDigit bytes := by
  cases fraction with
  | none => exact stops
  | digits behind =>
      rintro byte ⟨⟩
      decide

/-- A number without a sign is passed over as far as it goes. -/
theorem Unsigned.skip_eq {bytes rest : List UInt8} (unsigned : Unsigned bytes rest)
    (ends : Ends rest) : skip bytes = .ok rest := by
  obtain ⟨whole, fraction, exponent⟩ := unsigned
  rename_i digits middle later
  obtain ⟨stops, noPoint⟩ := exponent.head ends
  have more : skipRest middle = .ok rest :=
    (fraction.skipRest_eq stops noPoint).trans (exponent.skipTail_eq ends)
  have behind := fraction.head stops
  obtain ⟨first, following, rfl, digit, dropped⟩ := whole.exists_cons behind
  unfold skip
  split
  · rename_i none
    cases none
  · rename_i after isZero
    cases isZero
    obtain ⟨-, rfl⟩ := whole.of_zero
    split
    · exact more
    · rw [if_neg (by simp [behind _ rfl])]
      exact more
  · rename_i isFirst
    cases isFirst
    rw [if_pos digit, dropped]
    exact more

/-! ### Integers -/

/-- The value of a number that is not a float. -/
def integer? : Number → Option Int
  | .natural value => some value
  | .negative value => some value
  | .float _ => none

theorem integer?_of_finish {isNegative : Bool} {significand : Nat} {exponent : Int}
    {bytes rest : List UInt8} {number : Number}
    (taken : finish isNegative significand exponent bytes = .ok (number, rest)) :
    number.integer? = none := by
  unfold finish at taken
  split at taken <;> cases taken
  rfl

theorem integer?_of_readExponentDigits {isNegative : Bool} {significand : Nat} {start : Int}
    {isPositive : Bool} {exponent : Nat} {bytes rest : List UInt8} {number : Number}
    (taken : readExponentDigits isNegative significand start isPositive exponent bytes =
      .ok (number, rest)) : number.integer? = none := by
  induction bytes generalizing exponent with
  | nil => exact integer?_of_finish taken
  | cons digit bytes inductionHypothesis =>
      simp only [readExponentDigits] at taken
      split at taken
      · split at taken
        · exact inductionHypothesis taken
        · split at taken <;> cases taken
          rfl
      · exact integer?_of_finish taken

theorem integer?_of_readExponent {isNegative : Bool} {significand : Nat} {start : Int}
    {bytes rest : List UInt8} {number : Number}
    (taken : readExponent isNegative significand start bytes = .ok (number, rest)) :
    number.integer? = none := by
  unfold readExponent at taken
  split at taken
  · cases taken
  · split at taken
    · exact integer?_of_readExponentDigits taken
    · cases taken

theorem integer?_of_readTail {isNegative : Bool} {significand : Nat} {exponent : Int}
    {bytes rest : List UInt8} {number : Number}
    (taken : readTail isNegative significand exponent bytes = .ok (number, rest)) :
    number.integer? = none := by
  unfold readTail at taken
  split at taken
  · exact integer?_of_readExponent taken
  · exact integer?_of_readExponent taken
  · exact integer?_of_finish taken

theorem integer?_of_readFraction {isNegative : Bool} {significand : Nat} {exponent : Int}
    {bytes rest : List UInt8} {number : Number}
    (taken : readFraction isNegative significand exponent bytes = .ok (number, rest)) :
    number.integer? = none := by
  unfold readFraction at taken
  split at taken
  · cases taken
  · cases taken
  · exact integer?_of_readTail taken

/-- A significand that dropped no digit is what the digits write. -/
theorem absorb_eq_foldl {significand : Nat} {digits : List UInt8}
    (kept : (absorb significand digits).2 = 0) : (absorb significand digits).1 =
      digits.foldl (fun total digit => total * 10 + digitValue digit) significand := by
  induction digits generalizing significand with
  | nil => rfl
  | cons digit digits inductionHypothesis =>
      simp only [absorb] at kept ⊢
      split at kept
      · rename_i fits
        rw [if_pos fits]
        exact inductionHypothesis kept
      · cases kept

theorem le_foldl_digits (significand : Nat) (digits : List UInt8) :
    significand ≤ digits.foldl (fun total digit => total * 10 + digitValue digit) significand := by
  induction digits generalizing significand with
  | nil => exact Nat.le_refl _
  | cons digit digits inductionHypothesis =>
      calc significand ≤ significand * 10 + digitValue digit := by omega
        _ ≤ _ := inductionHypothesis _

/-- Digits that write a number of 64 bits are all absorbed. -/
theorem absorb_of_lt {significand : Nat} {digits : List UInt8}
    (fits : digits.foldl (fun total digit => total * 10 + digitValue digit) significand <
      UInt64.size) : absorb significand digits =
      (digits.foldl (fun total digit => total * 10 + digitValue digit) significand, 0) := by
  induction digits generalizing significand with
  | nil => rfl
  | cons digit digits inductionHypothesis =>
      have longer := le_foldl_digits (significand * 10 + digitValue digit) digits
      rw [List.foldl_cons] at fits ⊢
      rw [absorb, if_pos (Nat.lt_of_le_of_lt longer fits)]
      exact inductionHypothesis fits

/-- The value of digits with or without a minus sign. -/
def signedValue (isNegative : Bool) (digits : List UInt8) : Int :=
  if isNegative then -(numeral digits : Int) else numeral digits

theorem integer_of_readRest {isNegative : Bool} {digits bytes rest : List UInt8}
    {number : Number} {value : Int}
    (taken : readRest isNegative digits bytes = .ok (number, rest))
    (integral : number.integer? = some value) :
    rest = bytes ∧ value = signedValue isNegative digits ∧
      (isNegative = true → 0 < numeral digits) := by
  have float : ∀ {number : Number}, number.integer? = none → number.integer? ≠ some value :=
    fun none some => by rw [none] at some; cases some
  unfold readRest at taken
  dsimp only at taken
  split at taken
  · exact absurd integral (float (integer?_of_readFraction taken))
  · exact absurd integral (float (integer?_of_readExponent taken))
  · exact absurd integral (float (integer?_of_readExponent taken))
  · split at taken
    · exact absurd integral (float (integer?_of_finish taken))
    · rename_i kept
      have whole : (absorb 0 digits).1 = numeral digits := absorb_eq_foldl (not_not.mp kept)
      split at taken
      · rename_i positive
        rw [Bool.not_eq_true'] at positive
        cases taken
        cases integral
        exact ⟨rfl, by simp [signedValue, positive, whole], by simp [positive]⟩
      · rename_i negative
        rw [Bool.not_eq_true', Bool.not_eq_false] at negative
        split at taken
        · rename_i some
          cases taken
          cases integral
          rw [whole] at some ⊢
          simp only [Bool.and_eq_true, decide_eq_true_eq] at some
          exact ⟨rfl, by simp [signedValue, negative], fun _ => some.1⟩
        · cases taken
          cases integral

/-- A number that is read for an integer has nothing but digits. -/
theorem integer_of_read {isNegative : Bool} {bytes rest : List UInt8} {number : Number}
    {value : Int} (taken : read isNegative bytes = .ok (number, rest))
    (integral : number.integer? = some value) :
    ∃ digits, Whole digits bytes rest ∧ value = signedValue isNegative digits ∧
      (isNegative = true → 0 < numeral digits) := by
  unfold read at taken
  split at taken
  · cases taken
  · rename_i after
    have more : readRest isNegative [0x30] after = .ok (number, rest) := by
      split at taken
      · exact taken
      · split at taken
        · cases taken
        · exact taken
    obtain ⟨rfl, same, positive⟩ := integer_of_readRest more integral
    exact ⟨[0x30], whole_zero _, same, positive⟩
  · rename_i first after notZero
    split at taken
    · rename_i digit
      obtain ⟨rfl, same, positive⟩ := integer_of_readRest taken integral
      have run := digits_cons digit after
      rw [List.takeWhile_cons_of_pos digit] at same positive
      rw [List.dropWhile_cons_of_pos digit]
      refine ⟨_, ⟨run, fun leading => ?_⟩, same, positive⟩
      rw [List.head?_cons, Option.some.injEq] at leading
      exact absurd leading notZero
    · cases taken

/-- The digits of an integer are read as a whole. -/
theorem read_of_whole {digits bytes rest : List UInt8} (whole : Whole digits bytes rest)
    (ends : Ends rest) (isNegative : Bool) :
    read isNegative bytes = readRest isNegative digits rest := by
  have run := whole.digitRun_eq ends.noDigit
  obtain ⟨first, following, rfl, digit, -⟩ := whole.exists_cons ends.noDigit
  unfold read
  split
  · rename_i none
    cases none
  · rename_i after isZero
    cases isZero
    obtain ⟨rfl, rfl⟩ := whole.of_zero
    split
    · rfl
    · rw [if_neg (by simp [ends.noDigit _ rfl])]
  · rename_i isFirst
    cases isFirst
    rw [if_pos digit, run]

/-- What follows an integer is neither a fraction nor an exponent. -/
theorem readRest_of_ends {isNegative : Bool} {digits rest : List UInt8} (ends : Ends rest)
    (fits : numeral digits < UInt64.size) :
    readRest isNegative digits rest =
      if !isNegative then .ok (.natural (numeral digits), rest)
      else if 0 < numeral digits && numeral digits ≤ 9223372036854775808 then
        .ok (.negative (-Int.ofNat (numeral digits)), rest)
      else .ok (signed true (numeral digits).toUInt64.toFloat, rest) := by
  have whole : absorb 0 digits = (numeral digits, 0) := absorb_of_lt fits
  unfold readRest
  rw [whole]
  dsimp only
  split
  · exact absurd (ends _ rfl).2 (by decide)
  · exact absurd (ends _ rfl).2 (by decide)
  · exact absurd (ends _ rfl).2 (by decide)
  · simp

end Number

/-- An integer starts with a digit or a minus sign. -/
theorem Integer.exists_cons {bytes rest : List UInt8} {value : Int}
    (integer : Integer bytes value rest) :
    ∃ first more, bytes = first :: more ∧ (isDigit first = true ∨ first = 0x2d) := by
  cases integer with
  | natural whole =>
      obtain ⟨first, more, rfl⟩ := List.exists_cons_of_ne_nil whole.some
      exact ⟨first, more ++ rest, by rw [whole.split, List.cons_append],
        .inl (whole.decimal first List.mem_cons_self)⟩
  | negative => exact ⟨_, _, rfl, .inr rfl⟩

theorem isBlank_of_isDigit {byte : UInt8} (digit : isDigit byte = true) : isBlank byte = false := by
  rw [isDigit, Bool.and_eq_true, decide_eq_true_eq, decide_eq_true_eq] at digit
  rw [← Bool.not_eq_true, isBlank_iff]
  intro blank
  simp only [List.mem_cons, List.not_mem_nil, or_false] at blank
  rcases blank with rfl | rfl | rfl | rfl <;> exact absurd digit.1 (by decide)

/-- No blank stands in front of an integer. -/
theorem Integer.skipBlanks_eq {bytes rest : List UInt8} {value : Int}
    (integer : Integer bytes value rest) : skipBlanks bytes = bytes := by
  obtain ⟨first, more, rfl, digit | rfl⟩ := integer.exists_cons
  · exact skipBlanks_of_dark (isBlank_of_isDigit digit) more
  · exact skipBlanks_of_dark (by decide) more

section Reading

variable {N : Type} {width : String} {ofInt? : Int → Option N}

theorem integer_of_readNumber {bytes rest : List UInt8} {number : Number} {value : Int}
    (taken : readNumber width bytes = .ok (number, rest))
    (integral : number.integer? = some value) :
    ∃ start, Blanks bytes start ∧ Integer start value rest := by
  unfold readNumber at taken
  split at taken
  · cases taken
  rename_i first after split
  have blanks := blanks_skipBlanks bytes
  rw [split] at blanks
  refine ⟨first :: after, blanks, ?_⟩
  split at taken
  · rename_i isMinus
    cases eq_of_beq isMinus
    obtain ⟨digits, whole, rfl, positive⟩ := Number.integer_of_read taken integral
    exact .negative whole (positive rfl)
  · split at taken
    · obtain ⟨digits, whole, rfl, -⟩ := Number.integer_of_read taken integral
      exact .natural whole
    · cases taken

/-- What is read for an integer is the text of one that fits. -/
theorem integer_of_readInteger {bytes rest : List UInt8} {number : N}
    (taken : readInteger width ofInt? bytes = .ok (number, rest)) :
    ∃ start value, Blanks bytes start ∧ Integer start value rest ∧ ofInt? value = some number := by
  have fits : ∀ {value : Int} {left : List UInt8},
      readInteger.fit width ofInt? value left = .ok (number, rest) →
        ofInt? value = some number ∧ left = rest := by
    intro value left fitted
    unfold readInteger.fit at fitted
    split at fitted
    · rename_i fitting
      cases fitted
      exact ⟨fitting, rfl⟩
    · cases fitted
  unfold readInteger at taken
  split at taken
  · cases taken
  · cases taken
  · rename_i value left read
    obtain ⟨fitting, rfl⟩ := fits taken
    obtain ⟨start, blanks, integer⟩ := integer_of_readNumber read rfl
    exact ⟨start, value, blanks, integer, fitting⟩
  · rename_i value left read
    obtain ⟨fitting, rfl⟩ := fits taken
    obtain ⟨start, blanks, integer⟩ := integer_of_readNumber read rfl
    exact ⟨start, value, blanks, integer, fitting⟩

/-- The text of an integer that fits is read, provided that 64 bits hold the integer. -/
theorem readInteger_of_integer {bytes start rest : List UInt8} {value : Int} {number : N}
    (blanks : Blanks bytes start) (integer : Integer start value rest) (ends : Ends rest)
    (fitting : ofInt? value = some number)
    (narrow : -9223372036854775808 ≤ value ∧ value < 18446744073709551616) :
    readInteger width ofInt? bytes = .ok (number, rest) := by
  have split : skipBlanks bytes = start := blanks.skipBlanks_eq.trans integer.skipBlanks_eq
  cases integer with
  | @natural digits _ _ whole =>
      have fits : numeral digits < UInt64.size := by
        simp only [UInt64.size]
        omega
      obtain ⟨first, more, rfl, digit, -⟩ := whole.exists_cons ends.noDigit
      have read : readNumber width bytes = .ok (.natural (numeral digits), rest) := by
        have noMinus : (first == 0x2d) = false := by
          rw [beq_eq_false_iff_ne]
          rintro rfl
          cases digit
        simp only [readNumber, split, noMinus, digit, Number.read_of_whole whole ends,
          Number.readRest_of_ends ends fits, Bool.false_eq_true, if_false, if_true, Bool.not_false]
      simp [readInteger, read, readInteger.fit, fitting]
  | @negative digits _ _ whole positive =>
      have small : numeral digits ≤ 9223372036854775808 := by omega
      have fits : numeral digits < UInt64.size := by
        simp only [UInt64.size]
        omega
      have read : readNumber width bytes = .ok (.negative (-(numeral digits : Int)), rest) := by
        simp [readNumber, split, Number.read_of_whole whole ends, Number.readRest_of_ends ends fits,
          positive, small]
      simp [readInteger, read, readInteger.fit, fitting]

end Reading

end BuildImpact.Json
