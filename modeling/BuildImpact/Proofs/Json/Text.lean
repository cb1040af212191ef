/-
Module: BuildImpact.Proofs.Json.Text
Layer: Proofs
Purpose: Blanks and strings are read as the grammar has them.  A string is read to the
  bytes that its body means, and a text comes of it when these bytes are UTF-8; a string
  that is passed over has the form of one.  Each reader accepts exactly what the grammar
  derives.
Imports: BuildImpact.Json.Expect, BuildImpact.Proofs.Json.Grammar
Trusted boundary: none
Main exports: Json.Token.skipBlanks_eq, Json.token_of_skipBlanks, Json.readString_eq_ok_iff,
  Json.readText_eq_ok_iff, Json.skipString_eq_ok_iff
Open obligations: none
-/
import BuildImpact.Json.Expect
import BuildImpact.Proofs.Json.Grammar

namespace BuildImpact.Json

/-! ### Blanks -/

theorem isBlank_iff {byte : UInt8} : isBlank byte = true ↔ byte ∈ [0x20, 0x09, 0x0a, 0x0d] := by
  simp [isBlank, or_assoc]

theorem blanks_skipBlanks (bytes : List UInt8) : Blanks bytes (skipBlanks bytes) := by
  induction bytes with
  | nil => exact .none []
  | cons byte bytes inductionHypothesis =>
      rw [skipBlanks, List.dropWhile_cons]
      split
      · rename_i blank
        exact .more (isBlank_iff.mp blank) inductionHypothesis
      · exact .none _

/-- Skipping goes as far behind blanks as in front of them. -/
theorem Blanks.skipBlanks_eq {bytes rest : List UInt8} (blanks : Blanks bytes rest) :
    skipBlanks bytes = skipBlanks rest := by
  induction blanks with
  | none => rfl
  | more blank _ inductionHypothesis =>
      rw [skipBlanks, List.dropWhile_cons_of_pos (isBlank_iff.mpr blank)]
      exact inductionHypothesis

theorem Blanks.trans {bytes middle rest : List UInt8} (first : Blanks bytes middle)
    (second : Blanks middle rest) : Blanks bytes rest := by
  induction first with
  | none => exact second
  | more blank _ inductionHypothesis => exact .more blank (inductionHypothesis second)

theorem Blanks.eq_of_dark {byte : UInt8} {bytes rest : List UInt8}
    (blanks : Blanks (byte :: bytes) rest) (dark : isBlank byte = false) :
    rest = byte :: bytes := by
  cases blanks with
  | none => rfl
  | more blank =>
      rw [isBlank_iff.mpr blank] at dark
      cases dark

theorem skipBlanks_of_dark {byte : UInt8} (dark : isBlank byte = false) (rest : List UInt8) :
    skipBlanks (byte :: rest) = byte :: rest :=
  List.dropWhile_cons_of_neg (by simp [dark])

/-- Skipping stops in front of a token. -/
theorem Token.skipBlanks_eq {symbol : UInt8} {bytes rest : List UInt8}
    (token : Token symbol bytes rest) (dark : isBlank symbol = false) :
    skipBlanks bytes = symbol :: rest :=
  (Blanks.skipBlanks_eq token).trans (skipBlanks_of_dark dark rest)

theorem token_of_skipBlanks {symbol : UInt8} {bytes rest : List UInt8}
    (split : skipBlanks bytes = symbol :: rest) : Token symbol bytes rest := by
  rw [Token, ← split]
  exact blanks_skipBlanks bytes

/-! ### Literal names -/

/-- What follows the letters of a name is left. -/
theorem readLiteral_eq_ok_iff {letters bytes rest : List UInt8} :
    readLiteral letters bytes = .ok rest ↔ bytes = letters ++ rest := by
  induction letters generalizing bytes with
  | nil => simp [readLiteral]
  | cons letter letters inductionHypothesis =>
      cases bytes with
      | nil => simp [readLiteral, malformed]
      | cons byte bytes =>
          by_cases same : byte = letter
          · simp [readLiteral, same, inductionHypothesis]
          · simp [readLiteral, same, malformed]

/-! ### Escapes -/

theorem shortEscape?_eq_some_iff {letter byte : UInt8} :
    shortEscape? letter = some byte ↔ (letter, byte) ∈ shortEscapes := by
  constructor
  · intro known
    unfold shortEscape? at known
    split at known <;> cases known <;> decide
  · intro known
    simp only [shortEscapes, List.mem_cons, Prod.mk.injEq, List.not_mem_nil, or_false] at known
    rcases known with ⟨rfl, rfl⟩ | ⟨rfl, rfl⟩ | ⟨rfl, rfl⟩ | ⟨rfl, rfl⟩ | ⟨rfl, rfl⟩ | ⟨rfl, rfl⟩ |
      ⟨rfl, rfl⟩ | ⟨rfl, rfl⟩ <;> rfl

theorem hexValue?_lt {byte : UInt8} {value : Nat} (digit : hexValue? byte = some value) :
    value < 16 := by
  have bounds := byte.toNat_lt
  unfold hexValue? at digit
  simp only [Bool.and_eq_true, decide_eq_true_eq, UInt8.le_iff_toNat_le] at digit
  split at digit
  · cases digit
    simp at *
    omega
  · split at digit
    · cases digit
      simp at *
      omega
    · split at digit
      · cases digit
        simp at *
        omega
      · cases digit

theorem hexNumber?_lt {a b c d : UInt8} {number : Nat}
    (digits : hexNumber? a b c d = some number) : number < 0x10000 := by
  simp only [hexNumber?, Option.bind_eq_bind, Option.bind_eq_some_iff, Option.pure_def,
    Option.some.injEq] at digits
  obtain ⟨first, isFirst, second, isSecond, third, isThird, fourth, isFourth, rfl⟩ := digits
  have := hexValue?_lt isFirst
  have := hexValue?_lt isSecond
  have := hexValue?_lt isThird
  have := hexValue?_lt isFourth
  omega

theorem readHex_eq_ok_iff {bytes rest : List UInt8} {number : Nat} :
    readHex bytes = .ok (number, rest) ↔
      ∃ a b c d, bytes = a :: b :: c :: d :: rest ∧ hexNumber? a b c d = some number := by
  constructor
  · intro taken
    unfold readHex at taken
    split at taken
    · split at taken
      · rename_i digits
        cases taken
        exact ⟨_, _, _, _, rfl, digits⟩
      · cases taken
    · cases taken
  · rintro ⟨a, b, c, d, rfl, digits⟩
    simp [readHex, digits]

/-- A number outside the surrogates is that of a character. -/
theorem toNat_ofNat {number : Nat} (small : number < 0x110000)
    (apart : ¬ (0xd800 ≤ number ∧ number ≤ 0xdfff)) : (Char.ofNat number).toNat = number := by
  have valid : number.isValidChar := by
    rw [Nat.isValidChar]
    omega
  rw [Char.ofNat, dif_pos valid]
  rfl

/-- Half of a surrogate pair behind the other half, as an escape. -/
theorem readTrailing_eq_ok_iff {leading : Nat} (leads : 0xd800 ≤ leading ∧ leading ≤ 0xdbff)
    {bytes meant rest : List UInt8} :
    readTrailing leading bytes = .ok (meant, rest) ↔
      ∃ e f g h trailing char, bytes = 0x5c :: 0x75 :: e :: f :: g :: h :: rest ∧
        hexNumber? e f g h = some trailing ∧ (0xdc00 ≤ trailing ∧ trailing ≤ 0xdfff) ∧
        Char.toNat char = (leading - 0xd800) * 0x400 + (trailing - 0xdc00) + 0x10000 ∧
        meant = String.utf8EncodeChar char := by
  constructor
  · intro taken
    unfold readTrailing at taken
    split at taken
    · cases taken
    split at taken
    · cases taken
    split at taken
    · cases taken
    split at taken
    · cases taken
    split at taken
    · cases taken
    rename_i isBackslash _ _ _ isLetter _ trailing after digits
    split at taken
    · rename_i trails
      obtain ⟨e, f, g, h, rfl, number⟩ := readHex_eq_ok_iff.mp digits
      simp only [bne_iff_ne, ne_eq, Decidable.not_not] at isBackslash isLetter
      simp only [isTrailing, Bool.and_eq_true, decide_eq_true_eq] at trails
      simp only [Except.ok.injEq, Prod.mk.injEq] at taken
      obtain ⟨rfl, rfl⟩ := taken
      refine ⟨e, f, g, h, trailing, _, by rw [isBackslash, isLetter], number, trails, ?_, rfl⟩
      exact toNat_ofNat (by omega) (by omega)
    · cases taken
  · rintro ⟨e, f, g, h, trailing, char, rfl, number, trails, joined, rfl⟩
    have digits : readHex (e :: f :: g :: h :: rest) = .ok (trailing, rest) :=
      readHex_eq_ok_iff.mpr ⟨e, f, g, h, rfl, number⟩
    have isTrail : isTrailing trailing = true := by
      simp [isTrailing, trails]
    simp only [readTrailing, bne_self_eq_false, Bool.false_eq_true, if_false, digits, isTrail,
      if_true]
    rw [encodePoint, ← joined, Char.ofNat_toNat]

/-- Escapes mean what the grammar says, whatever string they stand in. -/
theorem stringBody_of_readEscape {bytes encoded after meant rest : List UInt8}
    (taken : readEscape bytes = .ok (encoded, after)) (more : StringBody after meant rest) :
    StringBody (0x5c :: bytes) (encoded ++ meant) rest := by
  unfold readEscape at taken
  split at taken
  · cases taken
  split at taken
  · rename_i known
    cases taken
    exact .short (shortEscape?_eq_some_iff.mp known) more
  split at taken
  · rename_i isLetter
    cases eq_of_beq isLetter
    unfold readPoint at taken
    split at taken
    · cases taken
    rename_i number left digits
    obtain ⟨a, b, c, d, rfl, first⟩ := readHex_eq_ok_iff.mp digits
    have small := hexNumber?_lt first
    split at taken
    · cases taken
    rename_i noTrail
    simp only [isTrailing, Bool.and_eq_true, decide_eq_true_eq] at noTrail
    split at taken
    · rename_i leads
      simp only [isLeading, Bool.and_eq_true, decide_eq_true_eq] at leads
      obtain ⟨e, f, g, h, trailing, char, rfl, second, trails, joined, rfl⟩ :=
        (readTrailing_eq_ok_iff leads).mp taken
      exact .pair first second leads trails joined more
    · rename_i noLead
      simp only [isLeading, Bool.and_eq_true, decide_eq_true_eq] at noLead
      cases taken
      exact .point (first.trans (congrArg some (toNat_ofNat (by omega) (by omega)).symm)) more
  · cases taken

/-- A character with a number of four digits is read from its escape. -/
theorem readEscape_of_point {a b c d : UInt8} {char : Char} {bytes : List UInt8}
    (number : hexNumber? a b c d = some char.toNat) :
    readEscape (0x75 :: a :: b :: c :: d :: bytes) = .ok (String.utf8EncodeChar char, bytes) := by
  have digits : readHex (a :: b :: c :: d :: bytes) = .ok (char.toNat, bytes) :=
    readHex_eq_ok_iff.mpr ⟨a, b, c, d, rfl, number⟩
  have apart : char.toNat < 0xd800 ∨ 0xdfff < char.toNat := char.valid.imp id And.left
  have noTrail : isTrailing char.toNat = false := by
    simp [isTrailing]
    omega
  have noLead : isLeading char.toNat = false := by
    simp [isLeading]
    omega
  simp [readEscape, shortEscape?, readPoint, digits, noTrail, noLead, encodePoint]

theorem readEscape_of_pair {a b c d e f g h : UInt8} {leading trailing : Nat} {char : Char}
    {bytes : List UInt8} (first : hexNumber? a b c d = some leading)
    (second : hexNumber? e f g h = some trailing)
    (leads : 0xd800 ≤ leading ∧ leading ≤ 0xdbff)
    (trails : 0xdc00 ≤ trailing ∧ trailing ≤ 0xdfff)
    (joined : char.toNat = (leading - 0xd800) * 0x400 + (trailing - 0xdc00) + 0x10000) :
    readEscape (0x75 :: a :: b :: c :: d :: 0x5c :: 0x75 :: e :: f :: g :: h :: bytes) =
      .ok (String.utf8EncodeChar char, bytes) := by
  have digits : readHex (a :: b :: c :: d :: 0x5c :: 0x75 :: e :: f :: g :: h :: bytes) =
      .ok (leading, 0x5c :: 0x75 :: e :: f :: g :: h :: bytes) :=
    readHex_eq_ok_iff.mpr ⟨a, b, c, d, rfl, first⟩
  have trail : readTrailing leading (0x5c :: 0x75 :: e :: f :: g :: h :: bytes) =
      .ok (String.utf8EncodeChar char, bytes) :=
    (readTrailing_eq_ok_iff leads).mpr
      ⟨e, f, g, h, trailing, char, rfl, second, trails, joined, rfl⟩
  have noTrail : isTrailing leading = false := by
    simp [isTrailing]
    omega
  have isLead : isLeading leading = true := by
    simp [isLeading, leads]
  simp [readEscape, shortEscape?, readPoint, digits, noTrail, isLead, trail]

/-! ### Strings that are read -/

/-- What is read behind the gathered bytes is what the body means. -/
theorem stringBody_of_readBytes {gathered bytes encoded rest : List UInt8}
    (taken : readBytes gathered bytes = .ok (encoded, rest)) :
    ∃ meant, encoded = gathered.reverse ++ meant ∧ StringBody bytes meant rest := by
  fun_induction readBytes gathered bytes with
  | case1 => cases taken
  | case2 gathered byte after isQuote =>
      cases taken
      cases eq_of_beq isQuote
      exact ⟨[], by simp, .close _⟩
  | case3 => cases taken
  | case4 gathered byte bytes _ isBackslash encoded after read inductionHypothesis =>
      obtain ⟨meant, rfl, more⟩ := inductionHypothesis taken
      cases eq_of_beq isBackslash
      exact ⟨encoded ++ meant, by simp, stringBody_of_readEscape read more⟩
  | case5 => cases taken
  | case6 gathered byte bytes noQuote noEscape visible inductionHypothesis =>
      obtain ⟨meant, rfl, more⟩ := inductionHypothesis taken
      exact ⟨byte :: meant, by simp, .plain (UInt8.not_lt.mp visible) (by simpa using noQuote)
        (by simpa using noEscape) more⟩

theorem readBytes_escape {bytes encoded after : List UInt8} (gathered : List UInt8)
    (taken : readEscape bytes = .ok (encoded, after)) :
    readBytes gathered (0x5c :: bytes) = readBytes (encoded.reverse ++ gathered) after := by
  rw [readBytes]
  split
  · rename_i isQuote
    cases eq_of_beq isQuote
  · split
    · split
      · rename_i failure refused
        rw [taken] at refused
        cases refused
      · rename_i read
        rw [taken] at read
        cases read
        rfl
    · rename_i noEscape
      exact absurd rfl noEscape

theorem StringBody.readBytes_eq {bytes meant rest : List UInt8}
    (body : StringBody bytes meant rest) (gathered : List UInt8) :
    readBytes gathered bytes = .ok (gathered.reverse ++ meant, rest) := by
  induction body generalizing gathered with
  | close => simp [readBytes]
  | plain visible noQuote noEscape _ inductionHypothesis =>
      rw [readBytes, if_neg (by simpa using noQuote), if_neg (by simpa using noEscape),
        if_neg (UInt8.not_lt.mpr visible), inductionHypothesis]
      simp
  | @short letter byte bytes _ _ known _ inductionHypothesis =>
      have taken : readEscape (letter :: bytes) = .ok ([byte], bytes) := by
        simp [readEscape, shortEscape?_eq_some_iff.mpr known]
      rw [readBytes_escape gathered taken, inductionHypothesis]
      simp
  | point number _ inductionHypothesis =>
      rw [readBytes_escape gathered (readEscape_of_point number), inductionHypothesis]
      simp
  | pair first second leads trails joined _ inductionHypothesis =>
      rw [readBytes_escape gathered (readEscape_of_pair first second leads trails joined),
        inductionHypothesis]
      simp

theorem readString_eq_ok_iff {bytes rest : List UInt8} {text : String} :
    readString bytes = .ok (text, rest) ↔ StringBody bytes (Utf8.encode text) rest := by
  constructor
  · intro taken
    unfold readString at taken
    split at taken
    · cases taken
    split at taken
    · rename_i read _ _ decoded
      cases taken
      obtain ⟨meant, same, body⟩ := stringBody_of_readBytes read
      rw [← Utf8.decode?_eq_some_iff.mp decoded, same]
      exact body
    · cases taken
  · intro body
    have read := body.readBytes_eq []
    rw [List.reverse_nil, List.nil_append] at read
    simp [readString, read]

theorem readText_eq_ok_iff {bytes rest : List UInt8} {text : String} :
    readText bytes = .ok (text, rest) ↔ TextToken bytes text rest := by
  constructor
  · intro taken
    unfold readText at taken
    split at taken
    · cases taken
    split at taken
    · rename_i split isQuote
      cases eq_of_beq isQuote
      exact ⟨_, token_of_skipBlanks split, readString_eq_ok_iff.mp taken⟩
    · cases taken
  · rintro ⟨body, quote, means⟩
    simp [readText, quote.skipBlanks_eq rfl, readString_eq_ok_iff.mpr means]

/-! ### Strings that are passed over -/

theorem stringForm_of_skipEscape {bytes after rest : List UInt8}
    (taken : skipEscape bytes = .ok after) (more : StringForm after rest) :
    StringForm (0x5c :: bytes) rest := by
  unfold skipEscape at taken
  split at taken
  · cases taken
  split at taken
  · rename_i known
    cases taken
    exact .short (shortEscape?_eq_some_iff.mp known) more
  split at taken
  · rename_i left _ _ isLetter
    cases eq_of_beq isLetter
    cases read : readHex left with
    | error failure =>
        rw [read] at taken
        cases taken
    | ok value =>
        rw [read] at taken
        cases taken
        obtain ⟨a, b, c, d, rfl, digits⟩ := readHex_eq_ok_iff.mp read
        exact .point digits more
  · cases taken

theorem stringForm_of_skipString {bytes rest : List UInt8} (taken : skipString bytes = .ok rest) :
    StringForm bytes rest := by
  fun_induction skipString bytes with
  | case1 => cases taken
  | case2 byte after isQuote =>
      cases taken
      cases eq_of_beq isQuote
      exact .close _
  | case3 => cases taken
  | case4 byte bytes _ isBackslash after passed inductionHypothesis =>
      cases eq_of_beq isBackslash
      exact stringForm_of_skipEscape passed (inductionHypothesis taken)
  | case5 => cases taken
  | case6 byte bytes noQuote noEscape visible inductionHypothesis =>
      exact .plain (UInt8.not_lt.mp visible) (by simpa using noQuote) (by simpa using noEscape)
        (inductionHypothesis taken)

theorem skipString_escape {bytes after : List UInt8} (taken : skipEscape bytes = .ok after) :
    skipString (0x5c :: bytes) = skipString after := by
  rw [skipString]
  split
  · rename_i isQuote
    cases eq_of_beq isQuote
  · split
    · split
      · rename_i failure refused
        rw [taken] at refused
        cases refused
      · rename_i passed
        rw [taken] at passed
        cases passed
        rfl
    · rename_i noEscape
      exact absurd rfl noEscape

theorem skipString_eq_ok_iff {bytes rest : List UInt8} :
    skipString bytes = .ok rest ↔ StringForm bytes rest := by
  constructor
  · exact stringForm_of_skipString
  · intro form
    induction form with
    | close => simp [skipString]
    | plain visible noQuote noEscape _ inductionHypothesis =>
        rw [skipString, if_neg (by simpa using noQuote), if_neg (by simpa using noEscape),
          if_neg (UInt8.not_lt.mpr visible), inductionHypothesis]
    | @short letter byte bytes _ known _ inductionHypothesis =>
        have taken : skipEscape (letter :: bytes) = .ok bytes := by
          simp [skipEscape, shortEscape?_eq_some_iff.mpr known]
        rw [skipString_escape taken, inductionHypothesis]
    | @point a b c d number bytes _ digits _ inductionHypothesis =>
        have read : readHex (a :: b :: c :: d :: bytes) = .ok (number, bytes) :=
          readHex_eq_ok_iff.mpr ⟨a, b, c, d, rfl, digits⟩
        have taken : skipEscape (0x75 :: a :: b :: c :: d :: bytes) = .ok bytes := by
          simp [skipEscape, shortEscape?, read, Except.map]
        rw [skipString_escape taken, inductionHypothesis]

end BuildImpact.Json
