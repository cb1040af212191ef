/-
Module: BuildImpact.Json.Number
Layer: JSON
Purpose: Numbers: read for their value, or passed over.
Imports: BuildImpact.Json.Failure
Trusted boundary: the arithmetic of machine floats
Main exports: Json.Number, Json.Number.read, Json.Number.skip
Open obligations: none
-/
import BuildImpact.Json.Failure

namespace BuildImpact.Json

def isDigit (byte : UInt8) : Bool := 0x30 ≤ byte && byte ≤ 0x39

def digitValue (byte : UInt8) : Nat := byte.toNat - 0x30

/-- The digits at the front of the bytes, and what follows them. -/
def digitRun (bytes : List UInt8) : List UInt8 × List UInt8 :=
  (bytes.takeWhile isDigit, bytes.dropWhile isDigit)

/-- The value of a number text. -/
inductive Number where
  /-- Written without sign, point and exponent, and below `2 ^ 64`. -/
  | natural (value : Nat)
  /-- Negative, written without point and exponent, and not below `-2 ^ 63`. -/
  | negative (value : Int)
  /-- Every other number, among them minus zero. -/
  | float (value : Float)
deriving Repr, Inhabited

namespace Number

/-- The number as it is named in an error. -/
def found : Number → Found
  | .natural value => .integer value
  | .negative value => .integer value
  | .float value => .float value

/-! ### Significand and exponent

The digits of a number are gathered into a significand of 64 bits.  A digit
that does not fit is dropped together with all digits that follow it in its
part of the number.
-/

/-- Append digits to a significand while they fit; the second component counts
the digits dropped. -/
def absorb (significand : Nat) : List UInt8 → Nat × Nat
  | [] => (significand, 0)
  | digit :: digits =>
    let longer := significand * 10 + digitValue digit
    if longer < UInt64.size then absorb longer digits else (significand, digits.length + 1)

/-- An exponent as written, clipped to 32 bits with a sign. -/
def clip (exponent : Int) : Int := max (-2147483648) (min 2147483647 exponent)

/-- Scale down by powers of ten that a float can hold. -/
def scaleDown (value : Float) (exponent : Int) : Float :=
  if value == 0.0 then value
  else if -308 ≤ exponent then value / OfScientific.ofScientific 1 false exponent.natAbs
  else scaleDown (value / OfScientific.ofScientific 1 false 308) (exponent + 308)
termination_by exponent.natAbs

/-- The float of a significand and an exponent; none beyond the largest one. -/
def scale (significand : Nat) (exponent : Int) : Option Float :=
  let value := significand.toUInt64.toFloat
  if exponent < 0 then some (scaleDown value exponent)
  else if 308 < exponent then if significand = 0 then some value else none
  else
    let scaled := value * OfScientific.ofScientific 1 false exponent.natAbs
    if scaled.isInf then none else some scaled

/-- Give a float its sign. -/
def signed (isNegative : Bool) (value : Float) : Number :=
  .float (if isNegative then -value else value)

/-- A float read to its end.  The byte behind it has been looked at. -/
def finish (isNegative : Bool) (significand : Nat) (exponent : Int) (rest : List UInt8) :
    Reading Number :=
  match scale significand exponent with
  | some value => .ok (signed isNegative value, rest)
  | none => malformed .numberOutOfRange rest .glimpsed

/-- The digits of an exponent behind the first one.  With more than 31 bits, a
positive exponent leaves only zero in range, and a negative one gives zero. -/
def readExponentDigits (isNegative : Bool) (significand : Nat) (start : Int)
    (isPositive : Bool) (exponent : Nat) : List UInt8 → Reading Number
  | [] => finish isNegative significand (total exponent) []
  | digit :: rest =>
    if isDigit digit then
      let longer := exponent * 10 + digitValue digit
      if longer < 2147483648 then
        readExponentDigits isNegative significand start isPositive longer rest
      else if significand ≠ 0 && isPositive then malformed .numberOutOfRange rest .read
      else .ok (signed isNegative 0.0, rest.dropWhile isDigit)
    else finish isNegative significand (total exponent) (digit :: rest)
where
  /-- The exponent of the significand, with the one written. -/
  total (exponent : Nat) : Int :=
    clip (if isPositive then start + exponent else start - exponent)

/-- Whether an exponent is positive, and the bytes behind its sign. -/
def exponentSign (bytes : List UInt8) : Bool × List UInt8 :=
  match bytes with
  | 0x2b :: rest => (true, rest)
  | 0x2d :: rest => (false, rest)
  | _ => (true, bytes)

/-- The exponent behind its letter. -/
def readExponent (isNegative : Bool) (significand : Nat) (start : Int) (bytes : List UInt8) :
    Reading Number :=
  match exponentSign bytes with
  | (_, []) => malformed .endInValue [] .read
  | (isPositive, digit :: rest) =>
    if isDigit digit then
      readExponentDigits isNegative significand start isPositive (digitValue digit) rest
    else malformed .invalidNumber rest .read

/-- What may follow the digits of a float: an exponent, or nothing. -/
def readTail (isNegative : Bool) (significand : Nat) (exponent : Int) (bytes : List UInt8) :
    Reading Number :=
  match bytes with
  | 0x65 :: rest => readExponent isNegative significand exponent rest
  | 0x45 :: rest => readExponent isNegative significand exponent rest
  | _ => finish isNegative significand exponent bytes

/-- The digits behind the point; there is at least one. -/
def readFraction (isNegative : Bool) (significand : Nat) (exponent : Int) (bytes : List UInt8) :
    Reading Number :=
  match digitRun bytes with
  | ([], []) => malformed .endInValue [] .read
  | ([], rest) => malformed .invalidNumber rest .offending
  | (digits, rest) =>
    let (longer, dropped) := absorb significand digits
    readTail isNegative longer (exponent - Int.ofNat (digits.length - dropped)) rest

/-- What follows the digits before the point.  Without point and exponent the
number is an integer, if it fits. -/
def readRest (isNegative : Bool) (digits : List UInt8) (bytes : List UInt8) : Reading Number :=
  let (significand, dropped) := absorb 0 digits
  match bytes with
  | 0x2e :: rest => readFraction isNegative significand dropped rest
  | 0x65 :: rest => readExponent isNegative significand dropped rest
  | 0x45 :: rest => readExponent isNegative significand dropped rest
  | _ =>
    if dropped ≠ 0 then finish isNegative significand dropped bytes
    else if !isNegative then .ok (.natural significand, bytes)
    else if 0 < significand && significand ≤ 9223372036854775808 then
      .ok (.negative (-Int.ofNat significand), bytes)
    else .ok (signed true significand.toUInt64.toFloat, bytes)

/-- Read a number from its first digit on, behind the sign.  A zero in front
has no digit after it. -/
def read (isNegative : Bool) (bytes : List UInt8) : Reading Number :=
  match bytes with
  | [] => malformed .endInValue [] .read
  | 0x30 :: rest =>
    match rest with
    | [] => readRest isNegative [0x30] rest
    | digit :: _ =>
      if isDigit digit then malformed .invalidNumber rest .offending
      else readRest isNegative [0x30] rest
  | first :: rest =>
    if isDigit first then
      let (digits, rest) := digitRun bytes
      readRest isNegative digits rest
    else malformed .invalidNumber rest .read

/-! ### Passing over a number

Only the form is looked at.  A number that ends too early is an invalid one
here, also at the end of the text.
-/

/-- Pass over an exponent, behind its letter. -/
def skipExponent (bytes : List UInt8) : Except Failure (List UInt8) :=
  match exponentSign bytes with
  | (_, []) => malformed .invalidNumber [] .read
  | (_, digit :: rest) =>
    if isDigit digit then .ok (rest.dropWhile isDigit) else malformed .invalidNumber rest .read

/-- Pass over what may follow the digits: an exponent, or nothing. -/
def skipTail (bytes : List UInt8) : Except Failure (List UInt8) :=
  match bytes with
  | 0x65 :: rest => skipExponent rest
  | 0x45 :: rest => skipExponent rest
  | _ => .ok bytes

/-- Pass over a fraction and an exponent, if they are there. -/
def skipRest (bytes : List UInt8) : Except Failure (List UInt8) :=
  match bytes with
  | 0x2e :: rest =>
    match digitRun rest with
    | ([], rest) => malformed .invalidNumber rest .offending
    | (_, rest) => skipTail rest
  | _ => skipTail bytes

/-- Pass over a number from its first digit on, behind the sign. -/
def skip (bytes : List UInt8) : Except Failure (List UInt8) :=
  match bytes with
  | [] => malformed .invalidNumber [] .read
  | 0x30 :: rest =>
    match rest with
    | [] => skipRest rest
    | digit :: _ =>
      if isDigit digit then malformed .invalidNumber rest .offending else skipRest rest
  | first :: rest =>
    if isDigit first then skipRest (rest.dropWhile isDigit)
    else malformed .invalidNumber rest .read

/-! ### A number leaves less than it found -/

theorem length_of_finish {isNegative : Bool} {significand : Nat} {exponent : Int}
    {bytes rest : List UInt8} {number : Number}
    (taken : finish isNegative significand exponent bytes = .ok (number, rest)) :
    rest = bytes := by
  unfold finish at taken
  split at taken <;> cases taken
  rfl

theorem length_dropDigits_le (bytes : List UInt8) :
    (bytes.dropWhile isDigit).length ≤ bytes.length :=
  (List.dropWhile_sublist _).length_le

theorem length_of_readExponentDigits {isNegative : Bool} {significand : Nat} {start : Int}
    {isPositive : Bool} {exponent : Nat} {bytes rest : List UInt8} {number : Number}
    (taken : readExponentDigits isNegative significand start isPositive exponent bytes =
      .ok (number, rest)) : rest.length ≤ bytes.length := by
  induction bytes generalizing exponent with
  | nil =>
      exact Nat.le_of_eq (congrArg List.length (length_of_finish taken))
  | cons digit bytes ih =>
      simp only [readExponentDigits] at taken
      split at taken
      · split at taken
        · have := ih taken
          simp only [List.length_cons]
          omega
        · split at taken
          · cases taken
          · simp only [Except.ok.injEq, Prod.mk.injEq] at taken
            have := length_dropDigits_le bytes
            rw [← taken.2]
            simp only [List.length_cons]
            omega
      · exact Nat.le_of_eq (congrArg List.length (length_of_finish taken))

theorem length_exponentSign_le (bytes : List UInt8) :
    (exponentSign bytes).2.length ≤ bytes.length := by
  unfold exponentSign
  split <;> simp

theorem length_of_readExponent {isNegative : Bool} {significand : Nat} {start : Int}
    {bytes rest : List UInt8} {number : Number}
    (taken : readExponent isNegative significand start bytes = .ok (number, rest)) :
    rest.length ≤ bytes.length := by
  unfold readExponent at taken
  have shorter := length_exponentSign_le bytes
  split at taken
  · cases taken
  · rename_i isPositive digit after sign
    rw [sign, List.length_cons] at shorter
    split at taken
    · have := length_of_readExponentDigits taken
      omega
    · cases taken

theorem length_of_readTail {isNegative : Bool} {significand : Nat} {exponent : Int}
    {bytes rest : List UInt8} {number : Number}
    (taken : readTail isNegative significand exponent bytes = .ok (number, rest)) :
    rest.length ≤ bytes.length := by
  unfold readTail at taken
  split at taken
  · have := length_of_readExponent taken
    simp only [List.length_cons]
    omega
  · have := length_of_readExponent taken
    simp only [List.length_cons]
    omega
  · exact Nat.le_of_eq (congrArg List.length (length_of_finish taken))

theorem length_of_readFraction {isNegative : Bool} {significand : Nat} {exponent : Int}
    {bytes rest : List UInt8} {number : Number}
    (taken : readFraction isNegative significand exponent bytes = .ok (number, rest)) :
    rest.length ≤ bytes.length := by
  unfold readFraction at taken
  split at taken
  · cases taken
  · cases taken
  · rename_i digits after run
    have := length_of_readTail taken
    have := length_dropDigits_le bytes
    simp only [digitRun, Prod.mk.injEq] at run
    rw [run.2] at this
    omega

theorem length_of_readRest {isNegative : Bool} {digits bytes rest : List UInt8}
    {number : Number} (taken : readRest isNegative digits bytes = .ok (number, rest)) :
    rest.length ≤ bytes.length := by
  unfold readRest at taken
  split at taken
  split at taken
  · have := length_of_readFraction taken
    simp only [List.length_cons]
    omega
  · have := length_of_readExponent taken
    simp only [List.length_cons]
    omega
  · have := length_of_readExponent taken
    simp only [List.length_cons]
    omega
  · split at taken
    · exact Nat.le_of_eq (congrArg List.length (length_of_finish taken))
    · split at taken
      · cases taken
        exact Nat.le_refl _
      · split at taken
        · cases taken
          exact Nat.le_refl _
        · simp only [Except.ok.injEq, Prod.mk.injEq] at taken
          exact Nat.le_of_eq (congrArg List.length taken.2.symm)

theorem length_of_read {isNegative : Bool} {bytes rest : List UInt8} {number : Number}
    (taken : read isNegative bytes = .ok (number, rest)) : rest.length < bytes.length := by
  unfold read at taken
  split at taken
  · cases taken
  · split at taken
    · have := length_of_readRest taken
      simp only [List.length_cons]
      omega
    · split at taken
      · cases taken
      · have := length_of_readRest taken
        simp only [List.length_cons] at *
        omega
  · rename_i first bytes _
    split at taken
    · rename_i isFirst
      have := length_of_readRest taken
      have := length_dropDigits_le bytes
      simp only [digitRun, List.dropWhile_cons, isFirst, if_true] at *
      simp only [List.length_cons]
      omega
    · cases taken

theorem length_of_skipExponent {bytes rest : List UInt8}
    (taken : skipExponent bytes = .ok rest) : rest.length ≤ bytes.length := by
  unfold skipExponent at taken
  have shorter := length_exponentSign_le bytes
  split at taken
  · cases taken
  · rename_i isPositive digit after sign
    rw [sign, List.length_cons] at shorter
    split at taken
    · cases taken
      have := length_dropDigits_le after
      omega
    · cases taken

theorem length_of_skipTail {bytes rest : List UInt8}
    (taken : skipTail bytes = .ok rest) : rest.length ≤ bytes.length := by
  unfold skipTail at taken
  split at taken
  · have := length_of_skipExponent taken
    simp only [List.length_cons]
    omega
  · have := length_of_skipExponent taken
    simp only [List.length_cons]
    omega
  · cases taken
    exact Nat.le_refl _

theorem length_of_skipRest {bytes rest : List UInt8}
    (taken : skipRest bytes = .ok rest) : rest.length ≤ bytes.length := by
  unfold skipRest at taken
  split at taken
  · rename_i bytes
    split at taken
    · cases taken
    · rename_i digits after run
      have := length_of_skipTail taken
      have := length_dropDigits_le bytes
      simp only [digitRun, Prod.mk.injEq] at run
      rw [run.2] at this
      simp only [List.length_cons]
      omega
  · exact length_of_skipTail taken

theorem length_of_skip {bytes rest : List UInt8}
    (taken : skip bytes = .ok rest) : rest.length < bytes.length := by
  unfold skip at taken
  split at taken
  · cases taken
  · split at taken
    · have := length_of_skipRest taken
      simp only [List.length_cons]
      omega
    · split at taken
      · cases taken
      · have := length_of_skipRest taken
        simp only [List.length_cons] at *
        omega
  · rename_i first bytes _
    split at taken
    · have := length_of_skipRest taken
      have := length_dropDigits_le bytes
      simp only [List.length_cons]
      omega
    · cases taken

end Number

end BuildImpact.Json
