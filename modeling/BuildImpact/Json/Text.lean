/-
Module: BuildImpact.Json.Text
Layer: JSON
Purpose: Blanks, literal names and strings.
Imports: BuildImpact.Json.Failure, BuildImpact.Text.Utf8
Trusted boundary: none
Main exports: Json.skipBlanks, Json.readLiteral, Json.readString, Json.skipString
Open obligations: none
-/
import BuildImpact.Json.Failure
import BuildImpact.Text.Utf8

namespace BuildImpact.Json

/-- Space, tab, line feed and carriage return stand between tokens. -/
def isBlank (byte : UInt8) : Bool :=
  byte == 0x20 || byte == 0x09 || byte == 0x0a || byte == 0x0d

/-- The bytes from the next token on. -/
def skipBlanks (bytes : List UInt8) : List UInt8 := bytes.dropWhile isBlank

theorem length_skipBlanks_le (bytes : List UInt8) :
    (skipBlanks bytes).length ≤ bytes.length :=
  (List.dropWhile_sublist _).length_le

/-- Take the rest of a literal name such as `null`, its first letter taken. -/
def readLiteral : List UInt8 → List UInt8 → Except Failure (List UInt8)
  | [], bytes => .ok bytes
  | _ :: _, [] => malformed .endInValue [] .read
  | letter :: letters, byte :: bytes =>
    if byte == letter then readLiteral letters bytes
    else malformed .literalExpected bytes .read

/-- The letters after the first one of `null`, `true` and `false`. -/
def nullTail : List UInt8 := [0x75, 0x6c, 0x6c]
@[inherit_doc nullTail] def trueTail : List UInt8 := [0x72, 0x75, 0x65]
@[inherit_doc nullTail] def falseTail : List UInt8 := [0x61, 0x6c, 0x73, 0x65]

theorem length_of_readLiteral {letters bytes rest : List UInt8}
    (taken : readLiteral letters bytes = .ok rest) :
    rest.length + letters.length = bytes.length := by
  induction letters generalizing bytes with
  | nil =>
      cases taken
      rfl
  | cons letter letters ih =>
      cases bytes with
      | nil => cases taken
      | cons byte bytes =>
          simp only [readLiteral] at taken
          split at taken
          · have := ih taken
            simp only [List.length_cons]
            omega
          · cases taken

/-! ### Escapes -/

/-- The value of a hexadecimal digit of either case. -/
def hexValue? (byte : UInt8) : Option Nat :=
  if 0x30 ≤ byte && byte ≤ 0x39 then some (byte.toNat - 0x30)
  else if 0x41 ≤ byte && byte ≤ 0x46 then some (byte.toNat - 0x37)
  else if 0x61 ≤ byte && byte ≤ 0x66 then some (byte.toNat - 0x57)
  else none

/-- The number written in four hexadecimal digits. -/
def hexNumber? (a b c d : UInt8) : Option Nat := do
  let a ← hexValue? a
  let b ← hexValue? b
  let c ← hexValue? c
  let d ← hexValue? d
  return ((a * 16 + b) * 16 + c) * 16 + d

/-- Take four hexadecimal digits.  All four are taken before any is judged. -/
def readHex : List UInt8 → Reading Nat
  | a :: b :: c :: d :: rest =>
    match hexNumber? a b c d with
    | some number => .ok (number, rest)
    | none => malformed .invalidEscape rest .read
  | _ => malformed .endInString [] .read

theorem length_of_readHex {bytes rest : List UInt8} {number : Nat}
    (taken : readHex bytes = .ok (number, rest)) : rest.length + 4 = bytes.length := by
  unfold readHex at taken
  split at taken
  · split at taken
    · cases taken
      rfl
    · cases taken
  · cases taken

/-- Whether a number is the first half of a surrogate pair. -/
def isLeading (number : Nat) : Bool := 0xd800 ≤ number && number ≤ 0xdbff

/-- Whether a number is the second half of a surrogate pair. -/
def isTrailing (number : Nat) : Bool := 0xdc00 ≤ number && number ≤ 0xdfff

/-- The UTF-8 bytes of a code point. -/
def encodePoint (number : Nat) : List UInt8 := String.utf8EncodeChar (Char.ofNat number)

/-- Take the second half of a surrogate pair, its backslash included. -/
def readTrailing (leading : Nat) (bytes : List UInt8) : Reading (List UInt8) :=
  match bytes with
  | [] => malformed .endInString [] .read
  | backslash :: bytes =>
    if backslash != 0x5c then malformed .surrogateEscapeExpected bytes .read
    else
      match bytes with
      | [] => malformed .endInString [] .read
      | letter :: bytes =>
        if letter != 0x75 then malformed .surrogateEscapeExpected bytes .read
        else
          match readHex bytes with
          | .error failure => .error failure
          | .ok (trailing, rest) =>
            if isTrailing trailing then
              .ok (encodePoint
                ((leading - 0xd800) * 0x400 + (trailing - 0xdc00) + 0x10000), rest)
            else malformed .loneSurrogate rest .read

/-- Take the number of a `\u` escape, and its second half where it needs one. -/
def readPoint (bytes : List UInt8) : Reading (List UInt8) :=
  match readHex bytes with
  | .error failure => .error failure
  | .ok (number, rest) =>
    if isTrailing number then malformed .loneSurrogate rest .read
    else if isLeading number then readTrailing number rest
    else .ok (encodePoint number, rest)

/-- The byte that a one-letter escape stands for. -/
def shortEscape? : UInt8 → Option UInt8
  | 0x22 => some 0x22
  | 0x5c => some 0x5c
  | 0x2f => some 0x2f
  | 0x62 => some 0x08
  | 0x66 => some 0x0c
  | 0x6e => some 0x0a
  | 0x72 => some 0x0d
  | 0x74 => some 0x09
  | _ => none

/-- Take an escape behind its backslash, and give the bytes it stands for. -/
def readEscape : List UInt8 → Reading (List UInt8)
  | [] => malformed .endInString [] .read
  | letter :: rest =>
    match shortEscape? letter with
    | some byte => .ok ([byte], rest)
    | none =>
      if letter == 0x75 then readPoint rest else malformed .invalidEscape rest .read

theorem length_of_readTrailing {leading : Nat} {bytes encoded rest : List UInt8}
    (taken : readTrailing leading bytes = .ok (encoded, rest)) : rest.length < bytes.length := by
  unfold readTrailing at taken
  split at taken
  · cases taken
  · split at taken
    · cases taken
    · split at taken
      · cases taken
      · split at taken
        · cases taken
        · split at taken
          · cases taken
          · rename_i trailing after read
            split at taken
            · simp only [Except.ok.injEq, Prod.mk.injEq] at taken
              have := length_of_readHex read
              rw [← taken.2]
              simp only [List.length_cons]
              omega
            · cases taken

theorem length_of_readPoint {bytes encoded rest : List UInt8}
    (taken : readPoint bytes = .ok (encoded, rest)) : rest.length < bytes.length := by
  unfold readPoint at taken
  split at taken
  · cases taken
  · rename_i number after read
    have := length_of_readHex read
    split at taken
    · cases taken
    · split at taken
      · have := length_of_readTrailing taken
        omega
      · cases taken
        omega

theorem length_of_readEscape {bytes encoded rest : List UInt8}
    (taken : readEscape bytes = .ok (encoded, rest)) : rest.length < bytes.length := by
  unfold readEscape at taken
  split at taken
  · cases taken
  · split at taken
    · cases taken
      simp
    · split at taken
      · have := length_of_readPoint taken
        simp only [List.length_cons]
        omega
      · cases taken

/-- Pass over an escape behind its backslash.  The number of a `\u` escape may
be any here. -/
def skipEscape : List UInt8 → Except Failure (List UInt8)
  | [] => malformed .endInString [] .read
  | letter :: rest =>
    match shortEscape? letter with
    | some _ => .ok rest
    | none =>
      if letter == 0x75 then (readHex rest).map (·.2) else malformed .invalidEscape rest .read

theorem length_of_skipEscape {bytes rest : List UInt8}
    (taken : skipEscape bytes = .ok rest) : rest.length < bytes.length := by
  unfold skipEscape at taken
  split at taken
  · cases taken
  · rename_i letter after
    split at taken
    · cases taken
      simp
    · split at taken
      · cases read : readHex after with
        | error failure =>
            rw [read] at taken
            cases taken
        | ok value =>
            obtain ⟨number, left⟩ := value
            rw [read] at taken
            cases taken
            have := length_of_readHex read
            simp only [List.length_cons]
            omega
      · cases taken

/-! ### Strings -/

/-- Take a string behind its opening quote up to and with the closing one.  The
bytes it stands for are gathered in front of `gathered`, the last one first. -/
def readBytes (gathered : List UInt8) (bytes : List UInt8) : Reading (List UInt8) :=
  match bytes with
  | [] => malformed .endInString [] .read
  | byte :: rest =>
    if byte == 0x22 then .ok (gathered.reverse, rest)
    else if byte == 0x5c then
      match _taken : readEscape rest with
      | .error failure => .error failure
      | .ok (encoded, after) => readBytes (encoded.reverse ++ gathered) after
    else if byte < 0x20 then malformed .controlCharacter rest .read
    else readBytes (byte :: gathered) rest
termination_by bytes.length
decreasing_by
  · have := length_of_readEscape _taken
    simp only [List.length_cons]
    omega
  · simp

theorem length_of_readBytes {gathered bytes text rest : List UInt8}
    (taken : readBytes gathered bytes = .ok (text, rest)) : rest.length < bytes.length := by
  fun_induction readBytes gathered bytes with
  | case1 => cases taken
  | case2 gathered byte after =>
      cases taken
      simp
  | case3 => cases taken
  | case4 gathered byte bytes _ _ encoded after read ih =>
      have := ih taken
      have := length_of_readEscape read
      simp only [List.length_cons]
      omega
  | case5 => cases taken
  | case6 gathered byte bytes _ _ _ ih =>
      have := ih taken
      simp only [List.length_cons]
      omega

/-- Take a string behind its opening quote.  The bytes it stands for have to be
UTF-8, which is judged when the string is complete.  The fault is placed in
front of its end by as many bytes as it stands for from the first wrong one on;
an escape stands for fewer bytes than it has, and so may move the place. -/
def readString (bytes : List UInt8) : Reading String :=
  match readBytes [] bytes with
  | .error failure => .error failure
  | .ok (encoded, rest) =>
    match Utf8.decode? encoded with
    | some text => .ok (text, rest)
    | none =>
      let wrong := encoded.length - Utf8.wellFormedLength encoded
      malformed .invalidCodePoint (bytes.drop (bytes.length - rest.length - wrong)) .read

theorem length_of_readString {bytes rest : List UInt8} {text : String}
    (taken : readString bytes = .ok (text, rest)) : rest.length < bytes.length := by
  unfold readString at taken
  split at taken
  · cases taken
  · rename_i encoded after read
    split at taken
    · cases taken
      exact length_of_readBytes read
    · cases taken

/-- Pass over a string behind its opening quote.  A control character is at
fault before it counts as read. -/
def skipString (bytes : List UInt8) : Except Failure (List UInt8) :=
  match bytes with
  | [] => malformed .endInString [] .read
  | byte :: rest =>
    if byte == 0x22 then .ok rest
    else if byte == 0x5c then
      match _taken : skipEscape rest with
      | .error failure => .error failure
      | .ok after => skipString after
    else if byte < 0x20 then malformed .controlCharacter bytes .glimpsed
    else skipString rest
termination_by bytes.length
decreasing_by
  · have := length_of_skipEscape _taken
    simp only [List.length_cons]
    omega
  · simp

theorem length_of_skipString {bytes rest : List UInt8}
    (taken : skipString bytes = .ok rest) : rest.length < bytes.length := by
  fun_induction skipString bytes with
  | case1 => cases taken
  | case2 byte after =>
      cases taken
      simp
  | case3 => cases taken
  | case4 byte bytes _ _ after read ih =>
      have := ih taken
      have := length_of_skipEscape read
      simp only [List.length_cons]
      omega
  | case5 => cases taken
  | case6 byte bytes _ _ _ ih =>
      have := ih taken
      simp only [List.length_cons]
      omega

end BuildImpact.Json
