/-
Module: BuildImpact.Json.Skip
Layer: JSON
Purpose: Values that are passed over, however deeply they nest.
Imports: BuildImpact.Json.Number, BuildImpact.Json.Text
Trusted boundary: none
Main exports: Json.Bracket, Json.skipValue, Json.length_of_skipValue
Open obligations: none
-/
import BuildImpact.Json.Number
import BuildImpact.Json.Text

namespace BuildImpact.Json

/-!
A value that nobody asked for is still read to its end, and every fault of its
text is found, apart from unpaired surrogates, bytes that are not UTF-8 and
numbers out of range.  The brackets that are open stand in a list, so nesting
has no limit.
-/

/-- An open bracket. -/
inductive Bracket where
  | list
  | object
deriving Repr, DecidableEq, Inhabited

def Bracket.closer : Bracket → UInt8
  | .list => 0x5d
  | .object => 0x7d

/-- The fault when the text ends inside a bracket. -/
def Bracket.endFault : Bracket → Malformed
  | .list => .endInList
  | .object => .endInObject

/-- The fault when neither a comma nor the closing byte follows an item. -/
def Bracket.separatorFault : Bracket → Malformed
  | .list => .listEndExpected
  | .object => .objectEndExpected

/-- Pass over a value that is no list and no object. -/
def skipAtom (first : UInt8) (rest : List UInt8) : Except Failure (List UInt8) :=
  if first == 0x6e then readLiteral nullTail rest
  else if first == 0x74 then readLiteral trueTail rest
  else if first == 0x66 then readLiteral falseTail rest
  else if first == 0x2d then Number.skip rest
  else if isDigit first then Number.skip (first :: rest)
  else if first == 0x22 then skipString rest
  else malformed .valueExpected (first :: rest) .offending

theorem length_of_skipAtom {first : UInt8} {bytes rest : List UInt8}
    (taken : skipAtom first bytes = .ok rest) : rest.length ≤ bytes.length := by
  unfold skipAtom at taken
  split at taken
  · have := length_of_readLiteral taken
    omega
  split at taken
  · have := length_of_readLiteral taken
    omega
  split at taken
  · have := length_of_readLiteral taken
    omega
  split at taken
  · have := Number.length_of_skip taken
    omega
  split at taken
  · have := Number.length_of_skip taken
    simp only [List.length_cons] at this
    omega
  split at taken
  · have := length_of_skipString taken
    omega
  · cases taken

/-- Pass over a key and the colon behind it. -/
def skipKey (bytes : List UInt8) : Except Failure (List UInt8) :=
  match skipBlanks bytes with
  | [] => malformed .endInObject [] .read
  | first :: rest =>
    if first == 0x22 then
      match skipString rest with
      | .error failure => .error failure
      | .ok rest =>
        match skipBlanks rest with
        | [] => malformed .endInObject [] .read
        | colon :: after =>
          if colon == 0x3a then .ok after
          else malformed .colonExpected (colon :: after) .offending
    else malformed .keyNotString (first :: rest) .offending

theorem length_of_skipKey {bytes rest : List UInt8}
    (taken : skipKey bytes = .ok rest) : rest.length < bytes.length := by
  unfold skipKey at taken
  have start := length_skipBlanks_le bytes
  split at taken
  · cases taken
  · rename_i first text split
    rw [split, List.length_cons] at start
    split at taken
    · split at taken
      · cases taken
      · rename_i left passed
        have string := length_of_skipString passed
        have blanks := length_skipBlanks_le left
        split at taken
        · cases taken
        · rename_i colon after split
          rw [split, List.length_cons] at blanks
          split at taken
          · cases taken
            omega
          · cases taken
    · cases taken

/-- What comes next while a value is passed over. -/
inductive Phase where
  /-- A value has to come. -/
  | value
  /-- A bracket has just been opened. -/
  | opened
  /-- A value has just ended. -/
  | ended
deriving Repr, DecidableEq, Inhabited

/-- A bracket may be left without reading on, a value may not. -/
def Phase.weight : Phase → Nat
  | .value => 0
  | .opened => 1
  | .ended => 0

/-- Pass over what is left of a value when the given brackets are open, the
innermost first. -/
def skipFrom (phase : Phase) (brackets : List Bracket) (bytes : List UInt8) :
    Except Failure (List UInt8) :=
  match phase, brackets with
  | .value, _ =>
    match _split : skipBlanks bytes with
    | [] => malformed .endInValue [] .read
    | first :: rest =>
      if first == 0x5b then skipFrom .opened (.list :: brackets) rest
      else if first == 0x7b then skipFrom .opened (.object :: brackets) rest
      else
        match _taken : skipAtom first rest with
        | .error failure => .error failure
        | .ok after => skipFrom .ended brackets after
  | _, [] => .ok bytes
  | .opened, bracket :: outer =>
    match _split : skipBlanks bytes with
    | [] => malformed bracket.endFault [] .read
    | first :: rest =>
      if first == bracket.closer then skipFrom .ended outer rest
      else
        match bracket with
        | .list => skipFrom .value brackets bytes
        | .object =>
          match _taken : skipKey bytes with
          | .error failure => .error failure
          | .ok after => skipFrom .value brackets after
  | .ended, bracket :: outer =>
    match _split : skipBlanks bytes with
    | [] => malformed bracket.endFault [] .read
    | first :: rest =>
      if first == bracket.closer then skipFrom .ended outer rest
      else if first == 0x2c then
        match bracket with
        | .list => skipFrom .value brackets rest
        | .object =>
          match _taken : skipKey rest with
          | .error failure => .error failure
          | .ok after => skipFrom .value brackets after
      else malformed bracket.separatorFault (first :: rest) .offending
termination_by (bytes.length, phase.weight)
decreasing_by
  all_goals
    try have blanks := length_skipBlanks_le bytes
    try rw [_split, List.length_cons] at blanks
    try have atom := length_of_skipAtom _taken
    try have key := length_of_skipKey _taken
    first
      | exact Prod.Lex.left _ _ (by omega)
      | exact Prod.Lex.right _ (by decide)

def skipValue (bytes : List UInt8) : Except Failure (List UInt8) :=
  skipFrom .value [] bytes

theorem length_of_skipFrom {phase : Phase} {brackets : List Bracket} {bytes rest : List UInt8}
    (taken : skipFrom phase brackets bytes = .ok rest) : rest.length ≤ bytes.length := by
  fun_induction skipFrom phase brackets bytes with
  | case1 => cases taken
  | case2 brackets bytes first after split _ ih =>
      have := ih taken
      have blanks := length_skipBlanks_le bytes
      rw [split, List.length_cons] at blanks
      omega
  | case3 brackets bytes first after split _ _ ih =>
      have := ih taken
      have blanks := length_skipBlanks_le bytes
      rw [split, List.length_cons] at blanks
      omega
  | case4 => cases taken
  | case5 brackets bytes first after split _ _ left atom ih =>
      have := ih taken
      have := length_of_skipAtom atom
      have blanks := length_skipBlanks_le bytes
      rw [split, List.length_cons] at blanks
      omega
  | case6 =>
      cases taken
      exact Nat.le_refl _
  | case7 => cases taken
  | case8 bytes bracket outer first after split _ ih =>
      have := ih taken
      have blanks := length_skipBlanks_le bytes
      rw [split, List.length_cons] at blanks
      omega
  | case9 bytes outer first after split _ ih => exact ih taken
  | case10 => cases taken
  | case11 bytes outer first after split left key _ ih =>
      have := ih taken
      have := length_of_skipKey key
      omega
  | case12 => cases taken
  | case13 bytes bracket outer first after split _ ih =>
      have := ih taken
      have blanks := length_skipBlanks_le bytes
      rw [split, List.length_cons] at blanks
      omega
  | case14 bytes outer first after split _ _ ih =>
      have := ih taken
      have blanks := length_skipBlanks_le bytes
      rw [split, List.length_cons] at blanks
      omega
  | case15 => cases taken
  | case16 bytes outer first after split _ left key _ ih =>
      have := ih taken
      have := length_of_skipKey key
      have blanks := length_skipBlanks_le bytes
      rw [split, List.length_cons] at blanks
      omega
  | case17 => cases taken

theorem length_of_skipValue {bytes rest : List UInt8}
    (taken : skipValue bytes = .ok rest) : rest.length ≤ bytes.length :=
  length_of_skipFrom taken

end BuildImpact.Json
