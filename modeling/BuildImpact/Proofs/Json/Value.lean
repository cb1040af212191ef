/-
Module: BuildImpact.Proofs.Json.Value
Layer: Proofs
Purpose: What printed values mean.  The grammar gives a text at most one value, and what is
  printed of a value has this value.
Imports: BuildImpact.Proofs.Json.Listed, BuildImpact.Proofs.Json.Print,
  Mathlib.Data.List.Forall2
Trusted boundary: none
Main exports: Json.ValueForm, Json.MemberForm, Json.Means, Json.unambiguous_value,
  Json.valueForm_pretty, Json.means_pretty_iff
Open obligations: none
-/
import BuildImpact.Proofs.Json.Listed
import BuildImpact.Proofs.Json.Print
import Mathlib.Data.List.Forall2

namespace BuildImpact.Json

open Utf8

/-! ### Values -/

mutual

/-- A value of a kind that is written, without blanks in front of it. -/
inductive ValueForm : List UInt8 → Value → List UInt8 → Prop where
  /-- The letters of `null`. -/
  | null (rest : List UInt8) : ValueForm (0x6e :: 0x75 :: 0x6c :: 0x6c :: rest) .null rest
  | number {number : Nat} {bytes rest : List UInt8} (integer : Integer bytes number rest)
      (ends : Ends rest) : ValueForm bytes (.number number) rest
  | string {text : String} {body rest : List UInt8}
      (meant : StringBody body (encode text) rest) :
      ValueForm (0x22 :: body) (.string text) rest
  | list {items : List Value} {inside rest : List UInt8}
      (listed : Listed ValueForm 0x5d true inside items rest) :
      ValueForm (0x5b :: inside) (.list items) rest
  | object {entries : List (String × Value)} {inside rest : List UInt8}
      (listed : Listed MemberForm 0x7d true inside entries rest) :
      ValueForm (0x7b :: inside) (.object entries) rest

/-- A key with its value, without blanks in front of it. -/
inductive MemberForm : List UInt8 → String × Value → List UInt8 → Prop where
  | member {key : String} {value : Value} {body colon after start rest : List UInt8}
      (name : StringBody body (encode key) colon) (isColon : Token 0x3a colon after)
      (blanks : Blanks after start) (form : ValueForm start value rest) :
      MemberForm (0x22 :: body) (key, value) rest

end

/-- `Means text value`: a text is JSON for a value, with blanks around it. -/
def Means (text : String) (value : Value) : Prop :=
  ∃ start rest, Blanks (encode text) start ∧ ValueForm start value rest ∧ Blanks rest []

/-! ### How values start -/

/-- A value starts neither with a blank nor with a byte that closes a list. -/
theorem ValueForm.exists_cons {value : Value} {bytes rest : List UInt8}
    (form : ValueForm bytes value rest) :
    ∃ first more, bytes = first :: more ∧ isBlank first = false ∧ first ≠ 0x5d := by
  cases form with
  | null | string | list | object => exact ⟨_, _, rfl, by decide, by decide⟩
  | number integer =>
      obtain ⟨first, more, rfl, digit | rfl⟩ := integer.exists_cons
      · refine ⟨first, more, rfl, isBlank_of_isDigit digit, ?_⟩
        rintro rfl
        cases digit
      · exact ⟨_, more, rfl, by decide, by decide⟩

theorem MemberForm.exists_cons {entry : String × Value} {bytes rest : List UInt8}
    (form : MemberForm bytes entry rest) :
    ∃ first more, bytes = first :: more ∧ isBlank first = false ∧ first ≠ 0x7d := by
  cases form with
  | member => exact ⟨_, _, rfl, by decide, by decide⟩

/-- An integer starts with a digit or a minus sign. -/
theorem Integer.ne_cons {value : Int} {bytes rest : List UInt8} (integer : Integer bytes value rest)
    {first : UInt8} (noDigit : isDigit first = false) (noMinus : first ≠ 0x2d)
    (more : List UInt8) : first :: more ≠ bytes := by
  rintro rfl
  obtain ⟨other, others, same, starts⟩ := integer.exists_cons
  cases same
  rcases starts with digit | minus
  · exact absurd digit (by rw [noDigit]; decide)
  · exact noMinus minus

/-! ### The first byte of a value says of which kind it is -/

theorem ValueForm.of_letter {value : Value} {more rest : List UInt8}
    (form : ValueForm (0x6e :: more) value rest) :
    value = .null ∧ more = 0x75 :: 0x6c :: 0x6c :: rest := by
  generalize same : 0x6e :: more = bytes at form
  cases form with
  | null =>
      cases same
      exact ⟨rfl, rfl⟩
  | number integer => exact absurd same (integer.ne_cons (by decide) (by decide) more)
  | string | list | object => simp at same

theorem ValueForm.of_quote {value : Value} {body rest : List UInt8}
    (form : ValueForm (0x22 :: body) value rest) :
    ∃ text, value = .string text ∧ StringBody body (encode text) rest := by
  generalize same : 0x22 :: body = bytes at form
  cases form with
  | string meant =>
      cases same
      exact ⟨_, rfl, meant⟩
  | number integer => exact absurd same (integer.ne_cons (by decide) (by decide) body)
  | null | list | object => simp at same

theorem ValueForm.of_bracket {value : Value} {inside rest : List UInt8}
    (form : ValueForm (0x5b :: inside) value rest) :
    ∃ items, value = .list items ∧ Listed ValueForm 0x5d true inside items rest := by
  generalize same : 0x5b :: inside = bytes at form
  cases form with
  | list listed =>
      cases same
      exact ⟨_, rfl, listed⟩
  | number integer => exact absurd same (integer.ne_cons (by decide) (by decide) inside)
  | null | string | object => simp at same

theorem ValueForm.of_brace {value : Value} {inside rest : List UInt8}
    (form : ValueForm (0x7b :: inside) value rest) :
    ∃ entries, value = .object entries ∧ Listed MemberForm 0x7d true inside entries rest := by
  generalize same : 0x7b :: inside = bytes at form
  cases form with
  | object listed =>
      cases same
      exact ⟨_, rfl, listed⟩
  | number integer => exact absurd same (integer.ne_cons (by decide) (by decide) inside)
  | null | string | list => simp at same

theorem ValueForm.of_integer {value : Value} {number : Int} {bytes middle rest : List UInt8}
    (integer : Integer bytes number middle) (form : ValueForm bytes value rest) :
    ∃ other : Nat, value = .number other ∧ Integer bytes other rest ∧ Ends rest := by
  cases form with
  | number again ends => exact ⟨_, rfl, again, ends⟩
  | null | string | list | object =>
      exact absurd rfl (integer.ne_cons (by decide) (by decide) _)

/-! ### A text has at most one value -/

/-- Whether a text that begins with an item begins with this item only, and in one way. -/
def Unambiguous {α : Type} (Item : List UInt8 → α → List UInt8 → Prop) (value : α) : Prop :=
  ∀ {bytes rest other left}, Item bytes value rest → Item bytes other left →
    value = other ∧ rest = left

theorem Token.unique {symbol : UInt8} (dark : isBlank symbol = false) {bytes rest left : List UInt8}
    (token : Token symbol bytes rest) (again : Token symbol bytes left) : rest = left := by
  have same := (token.skipBlanks_eq dark).symm.trans (again.skipBlanks_eq dark)
  exact (List.cons.inj same).2

/-- An item is found in one place behind a separator. -/
theorem Comma.unique {isFirst : Bool} {bytes : List UInt8} {first second : UInt8}
    {more others : List UInt8} (comma : Comma isFirst bytes (first :: more))
    (dark : isBlank first = false) (again : Comma isFirst bytes (second :: others))
    (alsoDark : isBlank second = false) : first :: more = second :: others := by
  have found := comma.skipBlanks_eq dark
  have foundAgain := again.skipBlanks_eq alsoDark
  cases isFirst with
  | true => exact found.symm.trans foundAgain
  | false =>
      obtain ⟨after, split, next⟩ := found
      obtain ⟨behind, splitAgain, nextAgain⟩ := foundAgain
      cases split.symm.trans splitAgain
      exact next.symm.trans nextAgain

section Items

variable {α : Type} {Item : List UInt8 → α → List UInt8 → Prop} {closer : UInt8}

/-- Where a list ends, no further item starts. -/
theorem Token.not_comma (dark : isBlank closer = false) (noComma : closer ≠ 0x2c) {isFirst : Bool}
    {bytes rest more : List UInt8} {first : UInt8} (closed : Token closer bytes rest)
    (comma : Comma isFirst bytes (first :: more)) (alsoDark : isBlank first = false)
    (differs : first ≠ closer) : False := by
  have split := closed.skipBlanks_eq dark
  have found := comma.skipBlanks_eq alsoDark
  cases isFirst with
  | true => exact differs (List.cons.inj (found.symm.trans split)).1
  | false =>
      obtain ⟨after, atComma, -⟩ := found
      exact noComma (List.cons.inj (split.symm.trans atComma)).1

/-- If its items are, a list is unambiguous. -/
theorem unambiguous_listed (dark : isBlank closer = false) (noComma : closer ≠ 0x2c)
    (starts : ∀ {bytes value rest}, Item bytes value rest →
      ∃ first more, bytes = first :: more ∧ isBlank first = false ∧ first ≠ closer)
    {isFirst : Bool} {bytes rest left : List UInt8} {values others : List α}
    (each : ∀ value ∈ values, Unambiguous Item value)
    (listed : Listed Item closer isFirst bytes values rest)
    (again : Listed Item closer isFirst bytes others left) : values = others ∧ rest = left := by
  induction listed generalizing others with
  | close closed =>
      cases again with
      | close closedAgain => exact ⟨rfl, closed.unique dark closedAgain⟩
      | item comma first =>
          obtain ⟨byte, more, rfl, alsoDark, differs⟩ := starts first
          exact (closed.not_comma dark noComma comma alsoDark differs).elim
  | item comma first _ inductionHypothesis =>
      obtain ⟨byte, more, rfl, firstDark, differs⟩ := starts first
      cases again with
      | close closed => exact (closed.not_comma dark noComma comma firstDark differs).elim
      | item commaAgain firstAgain others =>
          obtain ⟨other, behind, rfl, alsoDark, -⟩ := starts firstAgain
          -- Blanks may end anywhere, but an item does not start with one, so both start here.
          cases comma.unique firstDark commaAgain alsoDark
          rw [List.forall_mem_cons] at each
          obtain ⟨rfl, rfl⟩ := each.1 first firstAgain
          obtain ⟨rfl, rfl⟩ := inductionHypothesis each.2 others
          exact ⟨rfl, rfl⟩

end Items

/-- An integer takes all of its digits. -/
theorem Integer.unique {value other : Int} {bytes rest left : List UInt8}
    (integer : Integer bytes value rest) (ends : Ends rest) (again : Integer bytes other left)
    (endsAgain : Ends left) : value = other ∧ rest = left := by
  have digits : ∀ {bytes first second}, Whole first bytes rest → Whole second bytes left →
      first = second ∧ rest = left := by
    intro bytes first second whole wholeAgain
    have run := (whole.digitRun_eq ends.noDigit).symm.trans
      (wholeAgain.digitRun_eq endsAgain.noDigit)
    exact Prod.mk.inj run
  have noMinus : ∀ {more digits behind}, Ends behind → ¬ Whole digits (0x2d :: more) behind := by
    intro more digits behind stops whole
    obtain ⟨first, later, same, digit, -⟩ := whole.exists_cons stops.noDigit
    cases same
    cases digit
  cases integer with
  | natural whole =>
      cases again with
      | natural wholeAgain =>
          obtain ⟨rfl, same⟩ := digits whole wholeAgain
          exact ⟨rfl, same⟩
      | negative => exact (noMinus ends whole).elim
  | negative whole =>
      cases again with
      | natural wholeAgain => exact (noMinus endsAgain wholeAgain).elim
      | negative wholeAgain =>
          obtain ⟨rfl, same⟩ := digits whole wholeAgain
          exact ⟨rfl, same⟩

theorem StringBody.unique {text other : String} {body rest left : List UInt8}
    (meant : StringBody body (encode text) rest) (again : StringBody body (encode other) left) :
    text = other ∧ rest = left := by
  have read := (readString_eq_ok_iff.mpr meant).symm.trans (readString_eq_ok_iff.mpr again)
  exact Prod.mk.inj (Except.ok.inj read)

/-- If the value is, a key with its value is unambiguous. -/
theorem unambiguous_member {key : String} {value : Value} (only : Unambiguous ValueForm value) :
    Unambiguous MemberForm (key, value) := by
  intro bytes rest other left form again
  cases form with
  | member name isColon blanks form =>
      cases again with
      | member nameAgain isColonAgain blanksAgain formAgain =>
          obtain ⟨rfl, rfl⟩ := name.unique nameAgain
          cases isColon.unique (by decide) isColonAgain
          obtain ⟨first, more, rfl, dark, -⟩ := form.exists_cons
          obtain ⟨second, others, rfl, alsoDark, -⟩ := formAgain.exists_cons
          have front : Comma true _ (first :: more) := blanks
          cases front.unique dark blanksAgain alsoDark
          obtain ⟨rfl, rfl⟩ := only form formAgain
          exact ⟨rfl, rfl⟩

mutual

theorem unambiguous_value : (value : Value) → Unambiguous ValueForm value
  | .null, _, _, _, _, form, again => by
      cases form
      obtain ⟨rfl, same⟩ := again.of_letter
      cases same
      exact ⟨rfl, rfl⟩
  | .number number, _, _, _, _, form, again => by
      cases form with
      | number integer ends =>
          obtain ⟨other, rfl, integerAgain, endsAgain⟩ := again.of_integer integer
          obtain ⟨same, rfl⟩ := integer.unique ends integerAgain endsAgain
          cases Int.ofNat_inj.mp same
          exact ⟨rfl, rfl⟩
  | .string text, _, _, _, _, form, again => by
      cases form with
      | string meant =>
          obtain ⟨other, rfl, meantAgain⟩ := again.of_quote
          obtain ⟨rfl, rfl⟩ := meant.unique meantAgain
          exact ⟨rfl, rfl⟩
  | .list items, _, _, _, _, form, again => by
      cases form with
      | list listed =>
          obtain ⟨others, rfl, listedAgain⟩ := again.of_bracket
          obtain ⟨rfl, rfl⟩ := unambiguous_listed (by decide) (by decide)
            ValueForm.exists_cons (unambiguous_items items) listed listedAgain
          exact ⟨rfl, rfl⟩
  | .object entries, _, _, _, _, form, again => by
      cases form with
      | object listed =>
          obtain ⟨others, rfl, listedAgain⟩ := again.of_brace
          obtain ⟨rfl, rfl⟩ := unambiguous_listed (by decide) (by decide)
            MemberForm.exists_cons (unambiguous_entries entries) listed listedAgain
          exact ⟨rfl, rfl⟩

theorem unambiguous_items : (items : List Value) → ∀ item ∈ items, Unambiguous ValueForm item
  | [] => nofun
  | item :: items =>
      List.forall_mem_cons.mpr ⟨unambiguous_value item, unambiguous_items items⟩

theorem unambiguous_entries :
    (entries : List (String × Value)) → ∀ entry ∈ entries, Unambiguous MemberForm entry
  | [] => nofun
  | (_, value) :: entries =>
      List.forall_mem_cons.mpr
        ⟨unambiguous_member (unambiguous_value value), unambiguous_entries entries⟩

end

/-! ### Printed values -/

/-- Lines are indented by blanks. -/
theorem blanks_front (depth : Nat) (rest : List UInt8) :
    Blanks (encode ("\n" ++ indentation depth) ++ rest) rest := by
  have spaces : ∀ count,
      Blanks (encode (String.ofList (List.replicate count ' ')) ++ rest) rest := by
    intro count
    rw [encode_ofList]
    induction count with
    | zero => exact .none rest
    | succ count inductionHypothesis =>
        rw [List.replicate_succ, List.flatMap_cons, List.append_assoc]
        exact .more (by decide) inductionHypothesis
  rw [encode_append, List.append_assoc]
  exact .more (by decide) (spaces (2 * depth))

section Items

variable {α : Type} {Item : List UInt8 → α → List UInt8 → Prop} {closer : UInt8}

/-- Whether a text is an item with this value, whatever follows where a number can end. -/
def Prints (Item : List UInt8 → α → List UInt8 → Prop) (value : α) (text : String) : Prop :=
  ∀ rest, Ends rest → Item (encode text ++ rest) value rest

/-- The bytes of lines with commas between them and with something in front of each. -/
theorem encode_intercalate (front line : String) (lines : List String) :
    encode (String.intercalate ("," ++ front) (line :: lines)) =
      encode line ++ lines.flatMap fun line => 0x2c :: (encode front ++ encode line) := by
  have comma : encode "," = [0x2c] := by decide
  induction lines generalizing line with
  | nil => simp
  | cons next lines inductionHypothesis =>
      rw [String.intercalate_cons_cons, encode_append, encode_append, inductionHypothesis,
        encode_append, comma]
      simp

/-- The lines behind the first one. -/
theorem listed_further (mark : closer ∈ [0x2c, 0x5d, 0x7d]) (depth : Nat) {values : List α}
    {lines : List String} (printed : List.Forall₂ (Prints Item) values lines)
    (rest : List UInt8) :
    Listed Item closer false
      ((lines.flatMap fun line =>
          0x2c :: (encode ("\n" ++ indentation (depth + 1)) ++ encode line)) ++
        (encode ("\n" ++ indentation depth) ++ closer :: rest)) values rest := by
  induction printed with
  | nil => exact .close (blanks_front depth _)
  | cons first _ inductionHypothesis =>
      simp only [List.flatMap_cons, List.cons_append, List.append_assoc]
      exact .item ⟨_, .none _, blanks_front (depth + 1) _⟩
        (first _ (inductionHypothesis.ends mark)) inductionHypothesis

/-- Lines between brackets are the items that the lines print. -/
theorem exists_listed_bracketed (mark : closer ∈ [0x2c, 0x5d, 0x7d]) {opening closing : String}
    (closes : encode closing = [closer]) (depth : Nat) {values : List α} {lines : List String}
    (printed : List.Forall₂ (Prints Item) values lines) (rest : List UInt8) :
    ∃ inside, encode (bracketed depth opening closing lines) ++ rest = encode opening ++ inside ∧
      Listed Item closer true inside values rest := by
  cases printed with
  | nil =>
      refine ⟨closer :: rest, ?_, .close (.none _)⟩
      simp [bracketed, closes]
  | @cons value line values lines first others =>
      have further := listed_further mark depth others rest
      refine ⟨_, ?_, .item (blanks_front (depth + 1) _) (first _ (further.ends mark)) further⟩
      simp only [bracketed, List.isEmpty_cons, Bool.false_eq_true, if_false, encode_append,
        encode_intercalate, closes, List.append_assoc, List.singleton_append]

end Items

/-- A printed key with its printed value is a member. -/
theorem prints_member {value : Value} {text : String} (printed : Prints ValueForm value text)
    (key : String) : Prints MemberForm (key, value) (quote key ++ ": " ++ text) := by
  intro rest ends
  have colon : encode ": " = [0x3a, 0x20] := by decide
  obtain ⟨body, split, name⟩ := stringBody_quote key (0x3a :: 0x20 :: (encode text ++ rest))
  rw [encode_append, encode_append, colon, List.append_assoc, List.append_assoc]
  refine Eq.mpr (congrArg (MemberForm · _ _) split) ?_
  exact .member name (.none _) (.more (by decide) (.none _)) (printed rest ends)

mutual

/-- What is printed of a value has this value. -/
theorem prints_pretty (depth : Nat) :
    (value : Value) → Prints ValueForm value (value.pretty depth)
  | .null => fun rest _ => .null rest
  | .number number => fun rest ends => by
      rw [Value.pretty]
      exact .number (integer_decimal number rest) ends
  | .string text => fun rest _ => by
      obtain ⟨body, split, meant⟩ := stringBody_quote text rest
      rw [Value.pretty, split]
      exact .string meant
  | .list items => fun rest _ => by
      have closes : encode "]" = [0x5d] := by decide
      obtain ⟨inside, split, listed⟩ := exists_listed_bracketed (by decide) closes depth
        (prints_items (depth + 1) items) rest
      rw [Value.pretty, split]
      exact .list listed
  | .object entries => fun rest _ => by
      have closes : encode "\x7d" = [0x7d] := by decide
      obtain ⟨inside, split, listed⟩ := exists_listed_bracketed (by decide) closes depth
        (prints_entries (depth + 1) entries) rest
      rw [Value.pretty, split]
      exact .object listed

theorem prints_items (depth : Nat) :
    (items : List Value) → List.Forall₂ (Prints ValueForm) items (prettyItems depth items)
  | [] => .nil
  | item :: items => .cons (prints_pretty depth item) (prints_items depth items)

theorem prints_entries (depth : Nat) :
    (entries : List (String × Value)) →
      List.Forall₂ (Prints MemberForm) entries (prettyEntries depth entries)
  | [] => .nil
  | (key, value) :: entries =>
      .cons (prints_member (prints_pretty depth value) key) (prints_entries depth entries)

end

/-- A printed value on lines of its own is JSON for this value and for no other. -/
theorem means_pretty_iff {value other : Value} :
    Means (value.pretty 0 ++ "\n") other ↔ other = value := by
  have lineEnd : encode "\n" = [0x0a] := by decide
  have ends : Ends (encode "\n") := by
    rw [lineEnd]
    rintro byte ⟨⟩
    decide
  have form := prints_pretty 0 value (encode "\n") ends
  constructor
  · rintro ⟨start, rest, blanks, again, -⟩
    rw [encode_append] at blanks
    obtain ⟨first, more, split, dark, -⟩ := form.exists_cons
    rw [split] at form blanks
    cases blanks.eq_of_dark dark
    exact (unambiguous_value value form again).1.symm
  · rintro rfl
    rw [Means, encode_append]
    refine ⟨_, _, .none _, form, ?_⟩
    rw [lineEnd]
    exact .more (by decide) (.none [])

end BuildImpact.Json
