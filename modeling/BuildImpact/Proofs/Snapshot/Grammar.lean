/-
Module: BuildImpact.Proofs.Snapshot.Grammar
Layer: Proofs
Purpose: The shape of a snapshot as a grammar over bytes: an object from units to lists
  of edges.  How a unit is spelled depends on its type; texts are strings in both places,
  integers stand between quotes as a key and plainly as a target.
Imports: BuildImpact.Snapshot.Reader, BuildImpact.Proofs.Json.Listed
Trusted boundary: none
Main exports: SpelledId, NarrowWidth, Snapshot.FieldForm, Snapshot.EdgeForm,
  Snapshot.EntryForm, Snapshot.DocumentForm
Open obligations: none
-/
import BuildImpact.Snapshot.Reader
import BuildImpact.Proofs.Json.Listed

namespace BuildImpact

open Json

/-! ### Units -/

/-- Units of which it is known how a snapshot spells them. -/
class SpelledId (N : Type) [SnapshotId N] where
  /-- The text of a unit as a key, behind the opening quote and up to and with the
  closing one. -/
  Key : List UInt8 → N → List UInt8 → Prop
  /-- The text of a unit as the target of an edge. -/
  Target : List UInt8 → N → List UInt8 → Prop
  readKey_eq_ok_iff : ∀ {bytes rest : List UInt8} {unit : N},
    SnapshotId.readKey bytes = .ok (unit, rest) ↔ Key bytes unit rest
  target_of_readTarget : ∀ {bytes rest : List UInt8} {unit : N},
    SnapshotId.readTarget bytes = .ok (unit, rest) →
      ∃ start, Blanks bytes start ∧ Target start unit rest
  readTarget_of_target : ∀ {bytes start rest : List UInt8} {unit : N},
    Blanks bytes start → Target start unit rest → Ends rest →
      SnapshotId.readTarget bytes = .ok (unit, rest)
  /-- A target starts with neither a blank nor the end of a list. -/
  target_head : ∀ {bytes rest : List UInt8} {unit : N}, Target bytes unit rest →
    ∃ first more, bytes = first :: more ∧ isBlank first = false ∧ first ≠ 0x5d

/-- Texts are spelled as strings. -/
instance : SpelledId String where
  Key bytes unit rest := StringBody bytes (Utf8.encode unit) rest
  Target bytes unit rest := ∃ body, bytes = 0x22 :: body ∧ StringBody body (Utf8.encode unit) rest
  readKey_eq_ok_iff := readString_eq_ok_iff
  target_of_readTarget := by
    intro bytes rest unit taken
    obtain ⟨body, quote, meant⟩ := readText_eq_ok_iff.mp taken
    exact ⟨_, quote, body, rfl, meant⟩
  readTarget_of_target := by
    rintro bytes _ rest unit blanks ⟨body, rfl, meant⟩ -
    exact readText_eq_ok_iff.mpr ⟨body, blanks, meant⟩
  target_head := by
    rintro _ rest unit ⟨body, rfl, -⟩
    exact ⟨_, _, rfl, by decide, by decide⟩

/-- Widths within 64 bits, signed or not. -/
class NarrowWidth (N : Type) [IntegerWidth N] : Prop where
  narrow : ∀ {value : Int} {number : N}, IntegerWidth.ofInt? value = some number →
    -9223372036854775808 ≤ value ∧ value < 18446744073709551616

instance : NarrowWidth UInt8 where
  narrow := by
    intro value number taken
    simp only [IntegerWidth.ofInt?] at taken
    split at taken
    · omega
    · cases taken

instance : NarrowWidth UInt32 where
  narrow := by
    intro value number taken
    simp only [IntegerWidth.ofInt?] at taken
    split at taken
    · omega
    · cases taken

instance : NarrowWidth Int64 where
  narrow := by
    intro value number taken
    simp only [IntegerWidth.ofInt?] at taken
    split at taken
    · omega
    · cases taken

section Integers

variable {N : Type} [IntegerWidth N]

/-- The text of an integer of one width. -/
def IntegerWidth.Spelled (bytes : List UInt8) (number : N) (rest : List UInt8) : Prop :=
  ∃ value, Integer bytes value rest ∧ IntegerWidth.ofInt? value = some number

theorem IntegerWidth.readKey_eq_ok_iff [NarrowWidth N] {bytes rest : List UInt8} {number : N} :
    IntegerWidth.readKey bytes = .ok (number, rest) ↔ Spelled bytes number (0x22 :: rest) := by
  constructor
  · intro taken
    unfold IntegerWidth.readKey at taken
    split at taken
    · cases taken
    rename_i first more
    split at taken
    · rename_i starts
      have dark : isBlank first = false := by
        rw [Bool.or_eq_true, beq_iff_eq] at starts
        rcases starts with digit | rfl
        · exact isBlank_of_isDigit digit
        · decide
      split at taken
      · cases taken
      · cases taken
      rename_i read
      split at taken
      · rename_i isQuote
        cases eq_of_beq isQuote
        simp only [Except.ok.injEq, Prod.mk.injEq] at taken
        obtain ⟨rfl, rfl⟩ := taken
        obtain ⟨start, value, blanks, integer, fits⟩ := integer_of_readInteger read
        rw [← blanks.eq_of_dark dark]
        exact ⟨value, integer, fits⟩
      · cases taken
    · cases taken
  · rintro ⟨value, integer, fits⟩
    have ends : Ends (0x22 :: rest) := by
      intro byte head
      cases head
      decide
    have read : readInteger (IntegerWidth.width N) IntegerWidth.ofInt? bytes =
        .ok (number, 0x22 :: rest) :=
      readInteger_of_integer (.none bytes) integer ends fits (NarrowWidth.narrow fits)
    obtain ⟨first, more, rfl, starts⟩ := integer.exists_cons
    have starts : (isDigit first || first == 0x2d) = true := by simpa using starts
    simp [IntegerWidth.readKey, starts, read]

/-- Integers are spelled in decimal digits. -/
instance [NarrowWidth N] : SpelledId N where
  Key bytes unit rest := IntegerWidth.Spelled bytes unit (0x22 :: rest)
  Target := IntegerWidth.Spelled
  readKey_eq_ok_iff := IntegerWidth.readKey_eq_ok_iff
  target_of_readTarget := by
    intro bytes rest unit taken
    obtain ⟨start, value, blanks, integer, fits⟩ := integer_of_readInteger taken
    exact ⟨start, blanks, value, integer, fits⟩
  readTarget_of_target := by
    rintro bytes start rest unit blanks ⟨value, integer, fits⟩ ends
    exact readInteger_of_integer blanks integer ends fits (NarrowWidth.narrow fits)
  target_head := by
    rintro bytes rest unit ⟨value, integer, fits⟩
    obtain ⟨first, more, rfl, digit | rfl⟩ := integer.exists_cons
    · refine ⟨first, more, rfl, isBlank_of_isDigit digit, ?_⟩
      rintro rfl
      cases digit
    · exact ⟨_, more, rfl, by decide, by decide⟩

end Integers

namespace Snapshot

variable {N : Type}

/-! ### Edges -/

/-- What a field says about its edge. -/
inductive Field (N : Type) where
  | target (unit : N)
  | kindName (name : String)
  | other

namespace Field

def target? : Field N → Option N
  | .target unit => some unit
  | _ => none

def kindName? : Field N → Option String
  | .kindName name => some name
  | _ => none

@[simp] theorem target?_target (unit : N) : (target unit).target? = some unit := rfl
@[simp] theorem target?_kindName (name : String) : (kindName name : Field N).target? = none := rfl
@[simp] theorem target?_other : (other : Field N).target? = none := rfl
@[simp] theorem kindName?_target (unit : N) : (target unit).kindName? = none := rfl
@[simp] theorem kindName?_kindName (name : String) :
    (kindName name : Field N).kindName? = some name := rfl
@[simp] theorem kindName?_other : (other : Field N).kindName? = none := rfl

end Field

variable [SnapshotId N] [SpelledId N]

/-- A field of an edge.  One with another name may hold any value, of which only the form
is asked. -/
inductive FieldForm : List UInt8 → Field N → List UInt8 → Prop where
  | target {body colon value start rest : List UInt8} {unit : N}
      (name : StringBody body (Utf8.encode "id") colon) (isColon : Token 0x3a colon value)
      (blanks : Blanks value start) (target : SpelledId.Target start unit rest) :
      FieldForm (0x22 :: body) (.target unit) rest
  | kindName {body colon value rest : List UInt8} {kind : String}
      (name : StringBody body (Utf8.encode "type") colon) (isColon : Token 0x3a colon value)
      (kindName : TextToken value kind rest) : FieldForm (0x22 :: body) (.kindName kind) rest
  | other {body colon value start rest : List UInt8} {name : String}
      (isOther : name ≠ "id" ∧ name ≠ "type") (text : StringBody body (Utf8.encode name) colon)
      (isColon : Token 0x3a colon value) (blanks : Blanks value start)
      (any : Form .value start rest) : FieldForm (0x22 :: body) .other rest

/-- An edge, as an object or as a list. -/
inductive EdgeForm : List UInt8 → WrittenEdge N → List UInt8 → Prop where
  /-- Among the fields is one target and one name of a kind. -/
  | object {bytes rest : List UInt8} {fields : List (Field N)} {edge : WrittenEdge N}
      (listed : Listed FieldForm 0x7d true bytes fields rest)
      (oneTarget : fields.filterMap Field.target? = [edge.target])
      (oneKind : fields.filterMap Field.kindName? = [edge.kindName]) :
      EdgeForm (0x7b :: bytes) edge rest
  | pair {bytes start comma second close rest : List UInt8} {edge : WrittenEdge N}
      (blanks : Blanks bytes start) (target : SpelledId.Target start edge.target comma)
      (isComma : Token 0x2c comma second) (kindName : TextToken second edge.kindName close)
      (closed : Token 0x5d close rest) : EdgeForm (0x5b :: bytes) edge rest

/-! ### Documents -/

/-- A source with the list of its edges. -/
inductive EntryForm : List UInt8 → Entry N → List UInt8 → Prop where
  | intro {body colon list inside rest : List UInt8} {source : N} {edges : List (WrittenEdge N)}
      (key : SpelledId.Key body source colon) (isColon : Token 0x3a colon list)
      (opened : Token 0x5b list inside) (listed : Listed EdgeForm 0x5d true inside edges rest) :
      EntryForm (0x22 :: body) (source, edges) rest

/-- A whole snapshot. -/
inductive DocumentForm : List UInt8 → List (Entry N) → Prop where
  | intro {bytes inside rest : List UInt8} {entries : List (Entry N)}
      (opened : Token 0x7b bytes inside) (listed : Listed EntryForm 0x7d true inside entries rest)
      (blanks : Blanks rest []) : DocumentForm bytes entries

end Snapshot

end BuildImpact
