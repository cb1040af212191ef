/-
Module: BuildImpact.Proofs.Json.Print
Layer: Proofs
Purpose: Texts and integers that are printed are strings and integers of the grammar.  A
  printed string means the text character by character; a printed integer is its decimal
  digits, without a superfluous zero.
Imports: BuildImpact.Json.Print, BuildImpact.Proofs.Json.Grammar
Trusted boundary: none
Main exports: Json.stringBody_quote, Json.textToken_quote, Json.integer_decimal
Open obligations: none
-/
import BuildImpact.Json.Print
import BuildImpact.Proofs.Json.Grammar

namespace BuildImpact.Json

open Utf8

/-! ### Strings -/

/-- A byte that stands for itself between quotes. -/
def Plain (byte : UInt8) : Prop := 0x20 ≤ byte ∧ byte ≠ 0x22 ∧ byte ≠ 0x5c

instance : DecidablePred Plain := fun _ => inferInstanceAs (Decidable (_ ∧ _ ∧ _))

theorem stringBody_append {plain bytes meant rest : List UInt8} (each : ∀ byte ∈ plain, Plain byte)
    (more : StringBody bytes meant rest) : StringBody (plain ++ bytes) (plain ++ meant) rest := by
  induction plain with
  | nil => exact more
  | cons byte plain inductionHypothesis =>
      rw [List.forall_mem_cons] at each
      obtain ⟨⟨visible, noQuote, noEscape⟩, others⟩ := each
      exact .plain visible noQuote noEscape (inductionHypothesis others)

/-- A text without quotes, backslashes and control characters is printed as it stands. -/
theorem stringBody_plain {text : String} (each : ∀ byte ∈ encode text, Plain byte)
    (rest : List UInt8) : StringBody (encode text ++ 0x22 :: rest) (encode text) rest := by
  have body := stringBody_append each (.close rest)
  rwa [List.append_nil] at body

theorem plain_ofNat {number : Nat} (byte : number < 256) (visible : 0x20 ≤ number)
    (noQuote : number ≠ 0x22) (noEscape : number ≠ 0x5c) : Plain (UInt8.ofNat number) := by
  have same : (UInt8.ofNat number).toNat = number := by
    rw [UInt8.toNat_ofNat']
    omega
  refine ⟨?_, ?_, ?_⟩
  · rw [UInt8.le_iff_toNat_le, same]
    exact visible
  · intro isQuote
    rw [isQuote] at same
    exact noQuote same.symm
  · intro isEscape
    rw [isEscape] at same
    exact noEscape same.symm

/-- A character that needs no escape stands for itself, byte by byte: the bytes of one
beyond `0x7f` all are. -/
theorem plain_utf8EncodeChar {char : Char} (visible : 0x20 ≤ char.toNat)
    (noQuote : char.toNat ≠ 0x22) (noEscape : char.toNat ≠ 0x5c) :
    ∀ byte ∈ String.utf8EncodeChar char, Plain byte := by
  intro byte member
  have number : char.val.toNat = char.toNat := rfl
  rw [String.utf8EncodeChar, number] at member
  split at member
  · rw [List.mem_singleton] at member
    rw [member]
    exact plain_ofNat (by omega) visible noQuote noEscape
  split at member
  · simp only [List.mem_cons, List.not_mem_nil, or_false] at member
    rcases member with rfl | rfl <;>
      exact plain_ofNat (by omega) (by omega) (by omega) (by omega)
  split at member
  · simp only [List.mem_cons, List.not_mem_nil, or_false] at member
    rcases member with rfl | rfl | rfl <;>
      exact plain_ofNat (by omega) (by omega) (by omega) (by omega)
  · simp only [List.mem_cons, List.not_mem_nil, or_false] at member
    rcases member with rfl | rfl | rfl | rfl <;>
      exact plain_ofNat (by omega) (by omega) (by omega) (by omega)

/-- A control character without a letter of its own is written by its number. -/
theorem encode_fourDigits : ∀ code < 0x20,
    encode (fourDigits code) = [0x30, 0x30, (Nat.digitChar (code / 16 % 16)).toNat.toUInt8,
      (Nat.digitChar (code % 16)).toNat.toUInt8] ∧
    hexNumber? 0x30 0x30 (Nat.digitChar (code / 16 % 16)).toNat.toUInt8
      (Nat.digitChar (code % 16)).toNat.toUInt8 = some code := by
  decide

/-- However a character is escaped, it means itself. -/
theorem stringBody_escape (char : Char) {bytes meant rest : List UInt8}
    (more : StringBody bytes meant rest) :
    StringBody (encode (escape char) ++ bytes) (String.utf8EncodeChar char ++ meant) rest := by
  unfold escape
  split
  · exact .short (by decide) more
  · exact .short (by decide) more
  · exact .short (by decide) more
  · exact .short (by decide) more
  · exact .short (by decide) more
  · exact .short (by decide) more
  · exact .short (by decide) more
  · rename_i noQuote noEscape _ _ _ _ _
    split
    · rename_i control
      obtain ⟨digits, number⟩ := encode_fourDigits char.toNat control
      rw [encode_append, digits]
      exact .point number more
    · rename_i visible
      have single : encode char.toString = String.utf8EncodeChar char := by
        rw [Char.toString, String.singleton_eq_ofList, encode_ofList, List.flatMap_singleton]
      rw [single]
      refine stringBody_append (plain_utf8EncodeChar (by omega) ?_ ?_) more
      · exact fun same => noQuote (Char.toNat_inj.mp same)
      · exact fun same => noEscape (Char.toNat_inj.mp same)

/-- A printed text is a string that means the text. -/
theorem stringBody_quote (text : String) (rest : List UInt8) :
    ∃ body, encode (quote text) ++ rest = 0x22 :: body ∧ StringBody body (encode text) rest := by
  have characters : ∀ chars : List Char,
      StringBody (encode (String.join (chars.map escape)) ++ 0x22 :: rest)
        (chars.flatMap String.utf8EncodeChar) rest := by
    intro chars
    induction chars with
    | nil => exact .close rest
    | cons char chars inductionHypothesis =>
        rw [List.map_cons, String.join_cons, encode_append, List.append_assoc, List.flatMap_cons]
        exact stringBody_escape char inductionHypothesis
  refine ⟨encode (String.join (text.toList.map escape)) ++ 0x22 :: rest, ?_, ?_⟩
  · have mark : encode "\"" = [0x22] := by decide
    simp [quote, mark]
  · have whole := characters text.toList
    rwa [← encode_ofList, String.ofList_toList] at whole

theorem textToken_quote (text : String) (rest : List UInt8) :
    TextToken (encode (quote text) ++ rest) text rest := by
  obtain ⟨body, split, meant⟩ := stringBody_quote text rest
  exact ⟨body, by rw [split]; exact .none _, meant⟩

/-! ### Integers -/

theorem isDigit_ofNat : ∀ digit < 10, isDigit (UInt8.ofNat (0x30 + digit)) = true := by
  decide

theorem digitValue_ofNat : ∀ digit < 10, digitValue (UInt8.ofNat (0x30 + digit)) = digit := by
  decide

theorem encode_digitChar :
    ∀ digit < 10, String.utf8EncodeChar (Nat.digitChar digit) = [UInt8.ofNat (0x30 + digit)] := by
  decide

theorem encode_natural_of_lt {number : Nat} (small : number < 10) :
    encode (Decimal.natural number) = [UInt8.ofNat (0x30 + number)] := by
  rw [Decimal.natural, Nat.toDigits_of_lt_base small, encode_ofList, List.flatMap_singleton,
    encode_digitChar number small]

/-- The last digit is the remainder by ten, and the digits of the quotient stand before. -/
theorem encode_natural_of_le {number : Nat} (large : 10 ≤ number) :
    encode (Decimal.natural number) =
      encode (Decimal.natural (number / 10)) ++ [UInt8.ofNat (0x30 + number % 10)] := by
  rw [Decimal.natural, Nat.toDigits_of_base_le (by decide) large, encode_ofList,
    List.flatMap_append, List.flatMap_singleton, encode_digitChar _ (Nat.mod_lt _ (by decide)),
    Decimal.natural, encode_ofList]

theorem numeral_natural (number : Nat) : numeral (encode (Decimal.natural number)) = number := by
  induction number using Nat.strongRecOn with
  | ind number inductionHypothesis =>
      by_cases small : number < 10
      · rw [encode_natural_of_lt small, numeral, List.foldl_cons, List.foldl_nil,
          digitValue_ofNat number small, Nat.zero_mul, Nat.zero_add]
      · have front := inductionHypothesis (number / 10) (by omega)
        rw [numeral] at front
        rw [encode_natural_of_le (Nat.le_of_not_lt small), numeral, List.foldl_append, front]
        simp only [List.foldl_cons, List.foldl_nil,
          digitValue_ofNat _ (Nat.mod_lt number (show 0 < 10 by decide))]
        omega

theorem whole_natural (number : Nat) (rest : List UInt8) :
    Whole (encode (Decimal.natural number)) (encode (Decimal.natural number) ++ rest) rest := by
  induction number using Nat.strongRecOn generalizing rest with
  | ind number inductionHypothesis =>
      by_cases small : number < 10
      · rw [encode_natural_of_lt small]
        refine ⟨⟨rfl, List.cons_ne_nil _ _, ?_⟩, ?_⟩
        · rw [List.forall_mem_singleton]
          exact isDigit_ofNat number small
        · intro leading
          rw [List.head?_cons, Option.some.injEq] at leading
          rw [leading]
      · have large := Nat.le_of_not_lt small
        have front := inductionHypothesis (number / 10) (by omega) rest
        rw [encode_natural_of_le large]
        refine ⟨⟨rfl, by simp, ?_⟩, ?_⟩
        · rw [List.forall_mem_append, List.forall_mem_singleton]
          exact ⟨front.decimal, isDigit_ofNat _ (Nat.mod_lt number (by decide))⟩
        · intro leading
          rw [List.head?_append, Option.or_of_isSome (List.isSome_head?.mpr front.some)] at leading
          have value := numeral_natural (number / 10)
          rw [front.zeroAlone leading] at value
          have zero : numeral [0x30] = 0 := by decide
          omega

/-- A printed integer is an integer of the grammar. -/
theorem integer_decimal (value : Int) (rest : List UInt8) :
    Integer (encode (Decimal.integer value) ++ rest) value rest := by
  cases value with
  | ofNat absolute =>
      have derived := Integer.natural (whole_natural absolute rest)
      rw [numeral_natural] at derived
      exact derived
  | negSucc below =>
      have positive : 0 < numeral (encode (Decimal.natural (below + 1))) := by
        rw [numeral_natural]
        exact Nat.succ_pos below
      have derived := Integer.negative (whole_natural (below + 1) rest) positive
      rw [numeral_natural] at derived
      have minus : encode "-" = [0x2d] := by decide
      rw [Decimal.integer, encode_append, minus]
      exact derived

end BuildImpact.Json
