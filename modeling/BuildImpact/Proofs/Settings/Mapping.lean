/-
Module: BuildImpact.Proofs.Settings.Mapping
Layer: Proofs
Purpose: The settings that a mapping gives.  A mapping is accepted exactly if each key is the
  name of a setting, none is given twice, each value has the type of its setting, and no group
  of a report would be empty.  What is given counts then, and what is missing has its default;
  the order of the entries does not matter.
Imports: BuildImpact.Settings.Discover, BuildImpact.Proofs.Settings.Rows,
  BuildImpact.Proofs.Settings.Scalars, BuildImpact.Proofs.Yaml.Blank
Trusted boundary: none
Main exports: Settings.Sets, Settings.WellTyped, Settings.Describes, Settings.AsksForNone,
  Settings.Maps, Settings.ofEntries_eq_ok_iff, Settings.takes_every_entry
Open obligations: none
-/
import BuildImpact.Settings.Discover
import BuildImpact.Proofs.Settings.Rows
import BuildImpact.Proofs.Settings.Scalars
import BuildImpact.Proofs.Yaml.Blank

namespace BuildImpact.Settings

open Yaml

/-! ### What a mapping says -/

/-- `Sets field content value`: the field has the value if the node is what is given for it.
A scalar without a tag counts as what it stands for. -/
inductive Sets : (field : Field) → Content → field.Setting → Prop where
  | noPath {text : String} {style : Style} (stands : Value.ofScalar text style none = .ok .null) :
      Sets .graph (.scalar text style none) none
  /-- Any other scalar is a path, also one that stands for a number. -/
  | path {text : String} {style : Style}
      (something : Value.ofScalar text style none ≠ .ok .null) :
      Sets .graph (.scalar text style none) (some text)
  /-- A count has at most 64 bits. -/
  | count {text : String} {style : Style} {count : Nat}
      (stands : Value.ofScalar text style none = .ok (.integer (Int.ofNat count)))
      (small : count < UInt64.size) : Sets .maxDisplay (.scalar text style none) count
  | boolean {text : String} {style : Style} {value : Bool}
      (stands : Value.ofScalar text style none = .ok (.boolean value)) :
      Sets .json (.scalar text style none) value
  /-- A scalar with a tag counts as what it is read as. -/
  | tagged {field : Field} {text tag : String} {style : Style} {value : field.Setting}
      (found : read? field (.scalar text style (some tag)) = some value) :
      Sets field (.scalar text style (some tag)) value

def WellTyped (field : Field) (content : Content) : Prop := ∃ value, Sets field content value

/-- `Takes rows field value`: the field is given with this value, or it is missing and has its
default. -/
inductive Takes (rows : List Row) (field : Field) : field.Setting → Prop where
  | given {row : Row} {value : field.Setting} (member : row ∈ rows) (names : Names row.1 field)
      (sets : Sets field row.2 value) : Takes rows field value
  | missing (unnamed : ∀ row ∈ rows, ¬ Names row.1 field) : Takes rows field (default.get field)

structure Describes (rows : List Row) (settings : Settings) : Prop where
  lawful : Lawful WellTyped rows
  takes : ∀ field, Takes rows field (settings.get field)

/-- Whether no unit at all is to be listed. -/
def AsksForNone (rows : List Row) : Prop :=
  ∃ row ∈ rows, Names row.1 .maxDisplay ∧ Sets .maxDisplay row.2 (0 : Nat)

/-- A text that is one mapping, with its entries in the order in which they stand there. -/
def Maps (text : String) (rows : List Row) : Prop :=
  ∃ place entries,
    documentOf text = ⟨some ⟨.mapping, place⟩, entries, none, none⟩ ∧ entries.map rowOf = rows

/-! ### What is read and what is meant -/

section Meaning

variable {rows others : List Row} {field : Field} {content : Content} {settings : Settings}

/-- What is read is meant. -/
theorem sets_of_read? {value : field.Setting} (found : read? field content = some value) :
    Sets field content value := by
  cases content with
  | scalar text style tag =>
      cases tag with
      | some tag => exact .tagged found
      | none =>
          cases field with
          | graph =>
              have read : path? (.scalar text style none) = .ok value := by
                cases tried : path? (.scalar text style none) with
                | error fault => simp [read?, tried, Except.toOption] at found
                | ok path => simpa [read?, tried, Except.toOption] using found
              cases value with
              | none => exact .noPath (path?_untagged_none_iff.mp read)
              | some path =>
                  obtain ⟨something, rfl⟩ := path?_untagged_some_iff.mp read
                  exact .path something
          | maxDisplay =>
              obtain ⟨stands, small⟩ := stands_of_count? found
              exact .count stands small
          | json => exact .boolean (boolean?_untagged_iff.mp found)
  | _ => cases field <;> cases found

/-- What is meant is read.  A zero is meant also where it is not read: with a minus sign. -/
theorem read?_of_sets {value : field.Setting} (sets : Sets field content value)
    (zero : field = .maxDisplay → Sets .maxDisplay content (0 : Nat) → count? content = some 0) :
    read? field content = some value := by
  cases sets with
  | noPath stands => simp [read?, path?_untagged_none_iff.mpr stands, Except.toOption]
  | path something =>
      simp [read?, path?_untagged_some_iff.mpr ⟨something, rfl⟩, Except.toOption]
  | @count text style count stands small =>
      -- What stands for zero need not be read as a count; see `count?_of_stands`.
      rcases Nat.eq_zero_or_pos count with rfl | positive
      · exact zero rfl (.count stands small)
      · exact count?_of_stands stands small positive
  | boolean stands => exact boolean?_untagged_iff.mpr stands
  | tagged found => exact found

/-- A node sets a field to one value. -/
theorem Sets.unique {value other : field.Setting} (sets : Sets field content value)
    (others : Sets field content other) : value = other := by
  cases sets <;> cases others <;> grind

/-- A field takes what is given for it. -/
theorem Takes.eq_of_sets {suits : Field → Content → Prop} {value given : field.Setting}
    (takes : Takes rows field value) (lawful : Lawful suits rows) {row : Row}
    (member : row ∈ rows) (names : Names row.1 field) (sets : Sets field row.2 given) :
    value = given := by
  cases takes with
  | given otherMember otherNames others =>
      rw [lawful.eq_of_names member names otherMember otherNames] at sets
      exact others.unique sets
  | missing unnamed => exact absurd names (unnamed row member)

theorem Lawful.wellTyped (lawful : Lawful Readable rows) : Lawful WellTyped rows where
  known := lawful.known
  once := lawful.once
  suited row member field names :=
    have ⟨value, found⟩ := Option.isSome_iff_exists.mp (lawful.suited row member field names)
    ⟨value, sets_of_read? found⟩

theorem Lawful.readable (lawful : Lawful WellTyped rows)
    (zero : ∀ row ∈ rows, Names row.1 .maxDisplay → Sets .maxDisplay row.2 (0 : Nat) →
      count? row.2 = some 0) : Lawful Readable rows where
  known := lawful.known
  once := lawful.once
  suited row member field names := by
    obtain ⟨value, sets⟩ := lawful.suited row member field names
    refine Option.isSome_iff_exists.mpr ⟨value, read?_of_sets sets ?_⟩
    rintro rfl
    exact zero row member names

theorem Takes.unique {suits : Field → Content → Prop} {value other : field.Setting}
    (lawful : Lawful suits rows) (takes : Takes rows field value)
    (others : Takes rows field other) : value = other := by
  cases others with
  | given member names sets => exact takes.eq_of_sets lawful member names sets
  | missing unnamed =>
      cases takes with
      | given member names _ => exact absurd names (unnamed _ member)
      | missing => rfl

/-- A mapping describes one choice of settings. -/
theorem Describes.unique {other : Settings} (describes : Describes rows settings)
    (others : Describes rows other) : settings = other :=
  eq_of_get fun field => (describes.takes field).unique describes.lawful (others.takes field)

theorem Describes.not_asksForNone (describes : Describes rows settings) :
    ¬ AsksForNone rows := by
  rintro ⟨row, member, names, zero⟩
  have none : settings.maxDisplay = 0 :=
    (describes.takes .maxDisplay).eq_of_sets describes.lawful member names zero
  exact absurd none (Nat.ne_of_gt settings.maxDisplay_pos)

end Meaning

/-! ### The settings of a mapping -/

section Mapping

variable {mapping : Place} {draft : Draft} {entries : List Entry} {rows others : List Row}
  {settings : Settings} {fault : Fault}

/-- The settings are what the draft holds, and the defaults for what it lacks. -/
theorem Fills.describes (fills : Fills {} rows draft) (settled : draft.settings = .ok settings) :
    Describes rows settings where
  lawful := fills.lawful.wellTyped
  takes field := by
    rw [Draft.settings_eq_ok_iff.mp settled field]
    cases found : draft.get? field with
    | none =>
        refine .missing fun row member names => ?_
        obtain ⟨value, read⟩ :=
          Option.isSome_iff_exists.mp (fills.lawful.suited row member field names)
        have given := fills.get?_eq_some_iff.mpr (.inr ⟨row, member, names, read⟩)
        rw [found] at given
        cases given
    | some value =>
        obtain before | ⟨row, member, names, read⟩ := fills.get?_eq_some_iff.mp found
        · rw [Draft.get?_empty] at before
          cases before
        · exact .given member names (sets_of_read? read)

theorem ofEntries_of_lawful (mapping : Place) (lawful : Lawful WellTyped (entries.map rowOf))
    (listed : ¬ AsksForNone (entries.map rowOf)) :
    ∃ settings, ofEntries mapping entries = .ok settings := by
  have readable := lawful.readable fun row member names sets =>
    absurd ⟨row, member, names, sets⟩ listed
  obtain ⟨draft, fills⟩ := readable.exists_fills fun _ _ _ _ => Draft.get?_empty
  cases settled : draft.settings with
  | ok settings => exact ⟨settings, ofEntries_eq_ok_iff_fills.mpr ⟨draft, fills, settled⟩⟩
  | error fault =>
      obtain ⟨row, member, names, zero⟩ :=
        fills.zero_iff.mp (Draft.settings_eq_error_iff.mp settled).1
      exact absurd ⟨row, member, names, sets_of_read? zero⟩ listed

/-- The settings of a mapping are those that it describes. -/
theorem ofEntries_eq_ok_iff (mapping : Place) :
    ofEntries mapping entries = .ok settings ↔ Describes (entries.map rowOf) settings := by
  have describes : ∀ {settings}, ofEntries mapping entries = .ok settings →
      Describes (entries.map rowOf) settings := by
    intro settings given
    obtain ⟨draft, fills, settled⟩ := ofEntries_eq_ok_iff_fills.mp given
    exact fills.describes settled
  refine ⟨describes, fun described => ?_⟩
  -- The mapping is accepted with some settings, and it describes no others.
  obtain ⟨other, given⟩ := ofEntries_of_lawful mapping described.lawful described.not_asksForNone
  rw [described.unique (describes given)]
  exact given

theorem ofEntries_zero_iff (mapping : Place) :
    (∃ fault, ofEntries mapping entries = .error fault ∧ fault.problem = .zeroMaxDisplay) ↔
      Lawful WellTyped (entries.map rowOf) ∧
        ∃ row ∈ entries.map rowOf, Names row.1 .maxDisplay ∧ count? row.2 = some 0 := by
  constructor
  · rintro ⟨fault, failed, zero⟩
    unfold ofEntries at failed
    split at failed
    · rename_i wrong read
      cases failed
      exact absurd zero (problem_of_readEntries read)
    · rename_i draft read
      have fills := (readEntries_eq_ok_iff mapping).mp read
      exact ⟨fills.lawful.wellTyped,
        fills.zero_iff.mp (Draft.settings_eq_error_iff.mp failed).1⟩
  · rintro ⟨lawful, zero, member, names, written⟩
    have readable := lawful.readable fun other otherMember otherNames _ => by
      rw [lawful.eq_of_names otherMember otherNames member names]
      exact written
    obtain ⟨draft, fills⟩ := readable.exists_fills fun _ _ _ _ => Draft.get?_empty
    have given := fills.zero_iff.mpr ⟨zero, member, names, written⟩
    refine ⟨.general .zeroMaxDisplay, ?_, rfl⟩
    rw [ofEntries, (readEntries_eq_ok_iff mapping).mpr fills]
    exact Draft.settings_eq_error_iff.mpr ⟨given, rfl⟩

/-- A count of zero is what is wrong with a document only if nothing else is. -/
theorem lawful_of_zero {document : Document} (failed : ofDocument document = .error fault)
    (zero : fault.problem = .zeroMaxDisplay) :
    document.trouble = none ∧ ∃ place, document.top = some ⟨.mapping, place⟩ ∧
      Lawful WellTyped (document.entries.map rowOf) := by
  unfold ofDocument at failed
  split at failed
  · rename_i wrong read
    cases failed
    exact absurd zero (problem_of_readDocument read)
  · rename_i trouble _ _
    cases failed
    cases trouble <;> cases zero
  · rename_i draft read sound
    have counted := (Draft.settings_eq_error_iff.mp failed).1
    have given : draft ≠ {} := by
      rintro rfl
      cases counted
    obtain ⟨place, mapping, fills⟩ := fills_of_readDocument read given
    exact ⟨sound, place, mapping, fills.lawful.wellTyped⟩

end Mapping

/-! ### The order of the entries -/

section Order

variable {rows others : List Row} {settings : Settings}

theorem Takes.perm {field : Field} {value : field.Setting} (takes : Takes rows field value)
    (reordered : rows.Perm others) : Takes others field value := by
  cases takes with
  | given member names sets => exact .given (reordered.mem_iff.mp member) names sets
  | missing unnamed =>
      exact .missing fun row member => unnamed row (reordered.mem_iff.mpr member)

theorem Describes.perm (describes : Describes rows settings) (reordered : rows.Perm others) :
    Describes others settings where
  lawful := describes.lawful.perm reordered
  takes field := (describes.takes field).perm reordered

/-- A mapping without entries describes the defaults. -/
theorem describes_nil : Describes [] Settings.default where
  lawful := ⟨by simp, .nil, by simp⟩
  takes _ := .missing (by simp)

end Order

/-! ### The settings of a text -/

section Text

variable {text : String} {rows : List Row} {settings : Settings}

/-- A whole document that is a mapping is judged by its entries. -/
theorem ofDocument_mapping (place : Place) (entries : List Entry) :
    ofDocument ⟨some ⟨.mapping, place⟩, entries, none, none⟩ = ofEntries place entries := by
  simp only [ofDocument, readDocument, ofEntries]
  cases readEntries place {} entries <;> rfl

/-- The settings of a text that is a mapping are those of its entries. -/
theorem ofText_of_maps (maps : Maps text rows) :
    ∃ place entries, entries.map rowOf = rows ∧
      ofText text = match ofEntries place entries with
        | .ok settings => .ok settings
        | .error fault => .error { fault with isTextSound := true } := by
  obtain ⟨place, entries, document, same⟩ := maps
  have written : Blank.isBlankText text = false := by
    rw [Bool.eq_false_iff]
    intro blank
    exact top_ne_mapping_of_isBlankText blank (congrArg Document.top document) rfl
  refine ⟨place, entries, same, ?_⟩
  simp only [ofText, written, Bool.false_eq_true, if_false, document, ofDocument_mapping]
  rfl

theorem ofText_eq_ok_iff (maps : Maps text rows) :
    ofText text = .ok settings ↔ Describes rows settings := by
  obtain ⟨place, entries, rfl, same⟩ := ofText_of_maps maps
  rw [same, ← ofEntries_eq_ok_iff place]
  cases ofEntries place entries <;> simp

theorem exists_ofText_iff (maps : Maps text rows) :
    (∃ settings, ofText text = .ok settings) ↔ Lawful WellTyped rows ∧ ¬ AsksForNone rows := by
  constructor
  · rintro ⟨settings, given⟩
    have describes := (ofText_eq_ok_iff maps).mp given
    exact ⟨describes.lawful, describes.not_asksForNone⟩
  · rintro ⟨lawful, listed⟩
    obtain ⟨place, entries, rfl, same⟩ := ofText_of_maps maps
    obtain ⟨settings, given⟩ := ofEntries_of_lawful place lawful listed
    exact ⟨settings, by rw [same, given]⟩

theorem ofText_zero_iff (maps : Maps text rows) :
    (∃ fault, ofText text = .error fault ∧ fault.problem = .zeroMaxDisplay) ↔
      Lawful WellTyped rows ∧
        ∃ row ∈ rows, Names row.1 .maxDisplay ∧ count? row.2 = some 0 := by
  obtain ⟨place, entries, rfl, same⟩ := ofText_of_maps maps
  rw [same, ← ofEntries_zero_iff place]
  cases ofEntries place entries <;> simp

theorem toOption_eq_some_iff {α : Type} {outcome : Except Fault α} {found : α} :
    outcome.toOption = some found ↔ outcome = .ok found := by
  cases outcome <;> simp [Except.toOption]

/-- The order of the entries does not matter. -/
theorem toOption_ofText_of_perm {other : String} {others : List Row} (maps : Maps text rows)
    (othersMap : Maps other others) (reordered : rows.Perm others) :
    (ofText text).toOption = (ofText other).toOption := by
  ext settings
  rw [toOption_eq_some_iff, toOption_eq_some_iff, ofText_eq_ok_iff maps,
    ofText_eq_ok_iff othersMap]
  exact ⟨fun describes => describes.perm reordered,
    fun describes => describes.perm reordered.symm⟩

/-- What is wrong with a file that holds text is wrong with its settings. -/
theorem ofFile_eq_error_iff {path : String} {cause : BuildImpact.Fault} :
    ofFile path (Utf8.encode text) = .error cause ↔
      ∃ fault, ofText text = .error fault ∧
        cause = .settings { fault with file := some path } := by
  simp only [ofFile, Utf8.decode?_encode]
  cases ofText text <;> simp [eq_comm]

/-- That no unit would be listed is what is wrong with a text only if nothing else is. -/
theorem lawful_of_ofText_zero {fault : Fault} (failed : ofText text = .error fault)
    (zero : fault.problem = .zeroMaxDisplay) :
    (documentOf text).trouble = none ∧ ∃ place, (documentOf text).top = some ⟨.mapping, place⟩ ∧
      Lawful WellTyped ((documentOf text).entries.map rowOf) := by
  unfold ofText at failed
  split at failed
  · cases failed
  · extract_lets document at failed
    split at failed
    · cases failed
    · rename_i judged
      cases failed
      exact lawful_of_zero judged zero

/-- Blank text gives the defaults.  A mapping with any list of entries, in a document or in a
text, gives the settings that it describes.  It is accepted exactly if its keys are names of
settings, none twice, its values are well typed, and some unit is to be listed; the settings
hold then what is given and the defaults for what is missing, whatever the order of the
entries.  That no unit would be listed is reported only if nothing else is wrong, and whatever
is wrong is a fault of the settings. -/
theorem takes_every_entry :
    (∀ text, Blank.isBlankText text → ofText text = .ok Settings.default) ∧
    (∀ place entries settings,
      ofDocument ⟨some ⟨.mapping, place⟩, entries, none, none⟩ = .ok settings ↔
        Describes (entries.map rowOf) settings) ∧
    (∀ text rows, Maps text rows →
      (∀ settings, ofText text = .ok settings ↔ Describes rows settings) ∧
      ((∃ settings, ofText text = .ok settings) ↔
        Lawful WellTyped rows ∧ ¬ AsksForNone rows) ∧
      ((∃ fault, ofText text = .error fault ∧ fault.problem = .zeroMaxDisplay) ↔
        Lawful WellTyped rows ∧
          ∃ row ∈ rows, Names row.1 .maxDisplay ∧ count? row.2 = some 0) ∧
      (rows = [] → ofText text = .ok Settings.default) ∧
      (∀ other others, Maps other others → rows.Perm others →
        (ofText text).toOption = (ofText other).toOption)) ∧
    (∀ text fault, ofText text = .error fault → fault.problem = .zeroMaxDisplay →
      (documentOf text).trouble = none ∧
        ∃ place, (documentOf text).top = some ⟨.mapping, place⟩ ∧
          Lawful WellTyped ((documentOf text).entries.map rowOf)) ∧
    (∀ path text cause, ofFile path (Utf8.encode text) = .error cause →
      ∃ fault, ofText text = .error fault ∧
        cause = .settings { fault with file := some path }) := by
  refine ⟨?_, ?_, ?_, ?_, ?_⟩
  · intro text blank
    rw [ofText, if_pos blank]
  · intro place entries settings
    rw [ofDocument_mapping]
    exact ofEntries_eq_ok_iff place
  · intro text rows maps
    refine ⟨fun settings => ofText_eq_ok_iff maps, exists_ofText_iff maps, ofText_zero_iff maps,
      ?_, fun other others othersMap reordered => toOption_ofText_of_perm maps othersMap reordered⟩
    rintro rfl
    exact (ofText_eq_ok_iff maps).mpr describes_nil
  · intro text fault failed zero
    exact lawful_of_ofText_zero failed zero
  · intro path text cause failed
    exact ofFile_eq_error_iff.mp failed

end Text

/-! ### Two orders of two entries -/

/-- Where the snapshot is, in quotes, and how many units are listed. -/
def twoRows : List Row :=
  [(.scalar "graph" .plain none, .scalar "units.json" .doubleQuoted none),
    (.scalar "max-display" .plain none, .scalar "3" .plain none)]

def graphFirst : String := "graph: \"units.json\"\nmax-display: 3\n"

def graphLast : String := "max-display: 3\ngraph: \"units.json\"\n"

/-- A text that asks for no unit to be listed. -/
def noneListed : String := "json: true\nmax-display: 0\n"

/-- Blank text gives the defaults, two entries are taken in either order, and a count of zero is
refused behind an entry that is in order. -/
theorem takes_every_entry_twoRows :
    ofText "\n  \n" = .ok Settings.default ∧ Maps graphFirst twoRows ∧
      Maps graphLast twoRows.reverse ∧
      Describes twoRows { graph := some "units.json", maxDisplay := 3 } ∧
      (ofText graphFirst).toOption = (ofText graphLast).toOption ∧
      Lawful WellTyped ((documentOf noneListed).entries.map rowOf) ∧
      ∃ fault, ofText noneListed = .error fault ∧ fault.problem = .zeroMaxDisplay := by
  obtain ⟨ofBlank, -, ofMapping, ofZero, -⟩ := takes_every_entry
  have firstMaps : Maps graphFirst twoRows :=
    ⟨⟨0, 0⟩, (documentOf graphFirst).entries, by decide +kernel, by decide +kernel⟩
  have lastMaps : Maps graphLast twoRows.reverse :=
    ⟨⟨0, 0⟩, (documentOf graphLast).entries, by decide +kernel, by decide +kernel⟩
  have zeroMaps : Maps noneListed ((documentOf noneListed).entries.map rowOf) :=
    ⟨⟨0, 0⟩, (documentOf noneListed).entries, by decide +kernel, rfl⟩
  have accepted : ofText graphFirst = .ok { graph := some "units.json", maxDisplay := 3 } :=
    toOption_eq_some_iff.mp (by decide +kernel)
  have read : readEntries ⟨0, 0⟩ {} (documentOf noneListed).entries =
      .ok { maxDisplay := some 0, json := some true } :=
    toOption_eq_some_iff.mp (by decide +kernel)
  have fills := (readEntries_eq_ok_iff _).mp read
  obtain ⟨fault, failed, zero⟩ := (ofMapping _ _ zeroMaps).2.2.1.mpr
    ⟨fills.lawful.wellTyped, fills.zero_iff.mp rfl⟩
  obtain ⟨-, -, -, lawful⟩ := ofZero noneListed fault failed zero
  exact ⟨ofBlank _ (by decide +kernel), firstMaps, lastMaps,
    ((ofMapping _ _ firstMaps).1 _).mp accepted,
    (ofMapping _ _ firstMaps).2.2.2.2 _ _ lastMaps (List.reverse_perm _).symm, lawful,
    fault, failed, zero⟩

end BuildImpact.Settings
