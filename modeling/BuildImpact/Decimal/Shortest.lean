/-
Module: BuildImpact.Decimal.Shortest
Layer: Decimal
Purpose: Decimal texts of integers, and the shortest one that reads back as a float.
Imports: none
Trusted boundary: none
Main exports: Decimal.natural, Decimal.integer, Decimal.Binary, Decimal.shortest,
  Decimal.Format, Decimal.float
Open obligations: none
-/

namespace BuildImpact.Decimal

/-! ### Integers -/

/-- A natural number in decimal digits, without leading zeros. -/
def natural (number : Nat) : String := String.ofList (Nat.toDigits 10 number)

/-- An integer in decimal digits, with a minus sign when it is negative. -/
def integer (number : Int) : String :=
  match number with
  | .ofNat absolute => natural absolute
  | .negSucc below => "-" ++ natural (below + 1)

/-! ### Floats as exact numbers

A positive finite float is `mantissa * 2 ^ exponent`.  The reals that round to
it form an interval, reaching half way to the neighbours; its ends belong to it
exactly when the mantissa is even.  Below a power of two the lower neighbour is
twice as near.
-/

/-- A positive finite float with 53 bits. -/
structure Binary where
  mantissa : Nat
  exponent : Int
  /-- Whether the neighbour below is only half as far as the one above. -/
  nearBelow : Bool
deriving Repr, DecidableEq, Inhabited

/-- The exact number behind the lower 63 bits of a finite float. -/
def Binary.ofBits (bits : Nat) : Binary :=
  let fraction := bits % Nat.pow 2 52
  let field := bits / Nat.pow 2 52 % Nat.pow 2 11
  if field = 0 then ⟨fraction, -1074, false⟩
  else ⟨Nat.pow 2 52 + fraction, Int.ofNat field - 1075, fraction = 0 && field > 1⟩

/-- Numerator and denominator of a quarter of the last mantissa bit's weight. -/
def Binary.quarter (number : Binary) : Nat × Nat :=
  if 2 ≤ number.exponent then (Nat.pow 2 (number.exponent - 2).toNat, 1)
  else (1, Nat.pow 2 (2 - number.exponent).toNat)

/-- Numerator and denominator of `10 ^ power`. -/
def tenTo (power : Int) : Nat × Nat :=
  if 0 ≤ power then (Nat.pow 10 power.toNat, 1) else (1, Nat.pow 10 (-power).toNat)

/-- Whether `digits * 10 ^ power` rounds to the float. -/
def Binary.holds (number : Binary) (digits : Nat) (power : Int) : Bool :=
  let (quarterUp, quarterDown) := number.quarter
  let (tenUp, tenDown) := tenTo power
  let candidate := digits * tenUp * quarterDown
  let unit := quarterUp * tenDown
  let low := (4 * number.mantissa - if number.nearBelow then 1 else 2) * unit
  let high := (4 * number.mantissa + 2) * unit
  if number.mantissa % 2 = 0 then low ≤ candidate && candidate ≤ high
  else low < candidate && candidate < high

/-- The value in steps of `10 ^ power`, rounded down, and whether the next step
up is nearer; a tie goes to the even step. -/
def Binary.onGrid (number : Binary) (power : Int) : Nat × Bool :=
  let (quarterUp, quarterDown) := number.quarter
  let (tenUp, tenDown) := tenTo power
  let numerator := 4 * number.mantissa * quarterUp * tenDown
  let denominator := quarterDown * tenUp
  let down := numerator / denominator
  let rest := 2 * (numerator % denominator)
  (down, denominator < rest || (rest = denominator && down % 2 = 1))

/-- The larger `power` with `10 ^ power` not above the value, found by going
down from `power`. -/
def Binary.magnitude (number : Binary) : Nat → Int → Int
  | 0, power => power
  | tries + 1, power =>
    if (number.onGrid power).1 = 0 then number.magnitude tries (power - 1) else power

/-- The first of ever finer grids, `tries` of them, on which a neighbour of the
value rounds to the float; of two such neighbours the nearer one. -/
def Binary.firstHit (number : Binary) : Nat → Int → Nat × Int
  | 0, power => ((number.onGrid power).1, power)
  | tries + 1, power =>
    let (down, upNearer) := number.onGrid power
    let hitsDown := number.holds down power
    let hitsUp := number.holds (down + 1) power
    if hitsDown && !(hitsUp && upNearer) then (down, power)
    else if hitsUp then (down + 1, power)
    else number.firstHit tries (power - 1)

/-- The decimal digits of a natural number, the first one first. -/
def digitsOf (number : Nat) : List Char := Nat.toDigits 10 number

/-- The fewest digits that read back as the float, without zeros at the end,
and the exponent of the first one. -/
def shortest (number : Binary) : List Char × Int :=
  let (digits, power) := number.firstHit 17 (number.magnitude 700 309)
  let text := digitsOf digits
  let exponent := power + Int.ofNat text.length - 1
  match (text.reverse.dropWhile (· == '0')).reverse with
  | [] => (['0'], exponent)
  | kept => (kept, exponent)

/-! ### Floats as text -/

/-- How a float is written. -/
structure Format where
  /-- The exponents of the first digit that are written positionally. -/
  positional : Int → Bool
  /-- Whether a positive exponent is written with a plus sign. -/
  exponentPlus : Bool

/-- Digits written positionally, with at least one digit on each side of the
point. -/
def positionalText (digits : List Char) (exponent : Int) : String :=
  if exponent < 0 then
    "0." ++ String.ofList (List.replicate (-exponent - 1).toNat '0' ++ digits)
  else
    let whole := exponent.toNat + 1
    let front := digits.take whole ++ List.replicate (whole - digits.length) '0'
    let back := digits.drop whole
    String.ofList front ++ "." ++ (if back.isEmpty then "0" else String.ofList back)

/-- Digits written with an exponent; a single digit stands without a point. -/
def scientificText (format : Format) (digits : List Char) (exponent : Int) : String :=
  let significand :=
    match digits with
    | [] => "0"
    | [digit] => String.ofList [digit]
    | digit :: more => String.ofList (digit :: '.' :: more)
  let sign := if exponent < 0 then "-" else if format.exponentPlus then "+" else ""
  significand ++ "e" ++ sign ++ natural exponent.natAbs

/-- A float in the given format.  The sign of a zero is kept; what is not
finite has a name. -/
def float (format : Format) (value : Float) : String :=
  let bits := value.toBits.toNat
  let sign := if bits / Nat.pow 2 63 = 1 then "-" else ""
  let magnitude := bits % Nat.pow 2 63
  if magnitude / Nat.pow 2 52 = 2047 then
    if magnitude % Nat.pow 2 52 = 0 then sign ++ "inf" else "NaN"
  else if magnitude = 0 then sign ++ "0.0"
  else
    let (digits, exponent) := shortest (Binary.ofBits magnitude)
    sign ++
      if format.positional exponent then positionalText digits exponent
      else scientificText format digits exponent

end BuildImpact.Decimal
