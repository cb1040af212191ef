/-
Module: BuildImpact.Proofs.Settings.Rows
Layer: Proofs
Purpose: How the entries of a mapping are read.  An entry is read if its key is the name of a
  setting that was not given before and its value can be read as that setting; a mapping is
  read if all of its entries are, whatever their order.
Imports: Mathlib.Data.List.Pairwise, BuildImpact.Settings.Entries
Trusted boundary: none
Main exports: Settings.Field.Setting, Settings.Row, Settings.Names, Settings.read?,
  Settings.Lawful, Settings.readEntry_eq_ok_iff, Settings.Fills, Settings.readEntries_eq_ok_iff,
  Settings.Fills.lawful, Settings.Lawful.exists_fills, Settings.draftOf_readDocument,
  Settings.fills_of_readDocument
Open obligations: none
-/
import Mathlib.Data.List.Pairwise
import BuildImpact.Settings.Entries

namespace BuildImpact.Settings

open Yaml

/-! ### Settings by name -/

/-- What a setting holds. -/
abbrev Field.Setting : Field → Type
  | .graph => Option String
  | .maxDisplay => Nat
  | .json => Bool

def get (settings : Settings) : (field : Field) → field.Setting
  | .graph => settings.graph
  | .maxDisplay => settings.maxDisplay
  | .json => settings.json

/-- Settings are known by what they hold. -/
theorem eq_of_get {settings others : Settings}
    (same : ∀ field, settings.get field = others.get field) : settings = others := by
  obtain ⟨graph, maxDisplay, json, _⟩ := settings
  obtain rfl : graph = others.graph := same .graph
  obtain rfl : maxDisplay = others.maxDisplay := same .maxDisplay
  obtain rfl : json = others.json := same .json
  rfl

namespace Draft

def get? (draft : Draft) : (field : Field) → Option field.Setting
  | .graph => draft.graph
  | .maxDisplay => draft.maxDisplay
  | .json => draft.json

def set (draft : Draft) : (field : Field) → field.Setting → Draft
  | .graph, path => { draft with graph := some path }
  | .maxDisplay, count => { draft with maxDisplay := some count }
  | .json, value => { draft with json := some value }

variable {draft : Draft} {field other : Field}

theorem has_eq_isSome : draft.has field = (draft.get? field).isSome := by
  cases field <;> rfl

@[simp] theorem get?_empty : ({} : Draft).get? field = none := by
  cases field <;> rfl

@[simp] theorem get?_set_self {value : field.Setting} :
    (draft.set field value).get? field = some value := by
  cases field <;> rfl

theorem get?_set_of_ne {value : field.Setting} (differ : other ≠ field) :
    (draft.set field value).get? other = draft.get? other := by
  cases field <;> cases other <;> first | rfl | exact absurd rfl differ

end Draft

/-! ### Rows -/

/-- The key and the value of an entry, wherever they stand. -/
abbrev Row := Content × Content

def rowOf (entry : Entry) : Row := (entry.key.content, entry.value.content)

/-- A key names a field if it is a scalar with the field's name as its text. -/
def Names (key : Content) (field : Field) : Prop :=
  ∃ style tag, key = .scalar field.name style tag

/-- The setting that a node is read as. -/
def read? : (field : Field) → Content → Option field.Setting
  | .graph, content => (path? content).toOption
  | .maxDisplay, content => count? content
  | .json, content => Settings.boolean? content

/-- Rows that name no field in common. -/
def Apart (row other : Row) : Prop := ∀ field, Names row.1 field → ¬ Names other.1 field

instance : Std.Symm Apart :=
  ⟨fun _ _ apart field names otherNames => apart field otherNames names⟩

/-- Each key is the name of a field, no field is named twice, and values suit their fields. -/
structure Lawful (suits : Field → Content → Prop) (rows : List Row) : Prop where
  known : ∀ row ∈ rows, ∃ field, Names row.1 field
  once : rows.Pairwise Apart
  suited : ∀ row ∈ rows, ∀ field, Names row.1 field → suits field row.2

/-! ### One entry -/

section Entry

variable {mapping : Place} {draft after : Draft} {field other : Field} {content : Content}

theorem Names.unique {key : Content} (names : Names key field) (others : Names key other) :
    field = other := by
  obtain ⟨style, tag, rfl⟩ := names
  obtain ⟨style, tag, same⟩ := others
  injection same with name
  cases field <;> cases other <;> first | rfl | exact absurd name (by decide)

theorem ofName?_eq_some_iff {text : String} :
    Field.ofName? text = some field ↔ text = field.name := by
  constructor
  · intro found
    unfold Field.ofName? at found
    grind [Field.name]
  · rintro rfl
    exact Field.ofName?_name field

theorem readField_eq_ok_iff {key : Node} :
    readField key = .ok field ↔ Names key.content field := by
  obtain ⟨content, place⟩ := key
  cases content with
  | scalar text style tag =>
      have names : Names (.scalar text style tag) field ↔ Field.ofName? text = some field := by
        rw [ofName?_eq_some_iff]
        exact ⟨fun ⟨_, _, same⟩ => by injection same, fun same => ⟨style, tag, by rw [same]⟩⟩
      simp only [readField, readKey, names]
      cases Field.ofName? text <;> simp
  | _ => simp [readField, readKey, Names]

theorem readNewField_eq_ok_iff {key : Node} :
    readNewField mapping draft key = .ok field ↔
      Names key.content field ∧ draft.get? field = none := by
  rw [← readField_eq_ok_iff, readNewField]
  cases readField key with
  | error fault => simp
  | ok found =>
      cases given : draft.get? found <;> grind [Draft.has_eq_isSome]

theorem readValue_eq_ok_iff {label : String} {node : Node} :
    readValue mapping label field node draft = .ok after ↔
      ∃ value, read? field node.content = some value ∧ after = draft.set field value := by
  cases field with
  | graph =>
      simp only [readValue, read?]
      cases path? node.content with
      | ok path => simp [Except.toOption, Draft.set, eq_comm]
      | error found => cases found <;> simp [Except.toOption]
  | maxDisplay =>
      simp only [readValue, read?]
      cases count? node.content <;> simp [Draft.set, eq_comm]
  | json =>
      simp only [readValue, read?]
      cases Settings.boolean? node.content <;> simp [Draft.set, eq_comm]

/-- An entry is read if it gives a field that was not given before. -/
theorem readEntry_eq_ok_iff {entry : Entry} :
    readEntry mapping draft entry = .ok after ↔
      ∃ field value, Names (rowOf entry).1 field ∧ draft.get? field = none ∧
        read? field (rowOf entry).2 = some value ∧ after = draft.set field value := by
  constructor
  · intro read
    unfold readEntry at read
    split at read
    · cases read
    · rename_i field named
      obtain ⟨names, new⟩ := readNewField_eq_ok_iff.mp named
      obtain ⟨value, found, rfl⟩ := readValue_eq_ok_iff.mp read
      exact ⟨field, value, names, new, found, rfl⟩
  · rintro ⟨field, value, names, new, found, rfl⟩
    rw [readEntry, readNewField_eq_ok_iff.mpr ⟨names, new⟩]
    exact readValue_eq_ok_iff.mpr ⟨value, found, rfl⟩

/-- What is given after an entry was given before it, or the entry gives it. -/
theorem get?_set_iff {row : Row} {value : field.Setting} {found : other.Setting}
    (names : Names row.1 field) (new : draft.get? field = none)
    (read : read? field row.2 = some value) :
    (draft.set field value).get? other = some found ↔
      draft.get? other = some found ∨ (Names row.1 other ∧ read? other row.2 = some found) := by
  by_cases same : other = field
  · subst same
    simp [new, names, read]
  · have unnamed : ¬ Names row.1 other := fun others => same (others.unique names)
    simp [Draft.get?_set_of_ne same, unnamed]

end Entry

/-! ### All entries -/

/-- `Fills draft rows after`: from the first draft on, each row gives one more field. -/
inductive Fills : Draft → List Row → Draft → Prop where
  | nil {draft : Draft} : Fills draft [] draft
  | cons {draft after : Draft} {row : Row} {rows : List Row} {field : Field}
      {value : field.Setting} (names : Names row.1 field) (new : draft.get? field = none)
      (read : read? field row.2 = some value) (rest : Fills (draft.set field value) rows after) :
      Fills draft (row :: rows) after

def Readable (field : Field) (content : Content) : Prop := (read? field content).isSome

section Entries

variable {draft after : Draft} {rows others : List Row} {field : Field}

theorem readEntries_eq_ok_iff (mapping : Place) {entries : List Entry} :
    readEntries mapping draft entries = .ok after ↔ Fills draft (entries.map rowOf) after := by
  induction entries generalizing draft with
  | nil =>
      constructor
      · intro read
        cases read
        exact .nil
      · intro fills
        cases fills
        rfl
  | cons entry entries inductionHypothesis =>
      constructor
      · intro read
        unfold readEntries at read
        split at read
        · cases read
        · rename_i between first
          obtain ⟨field, value, names, new, found, rfl⟩ := readEntry_eq_ok_iff.mp first
          exact .cons names new found (inductionHypothesis.mp read)
      · intro fills
        cases fills with
        | cons names new found rest =>
            have first : readEntry mapping draft entry = .ok _ :=
              readEntry_eq_ok_iff.mpr ⟨_, _, names, new, found, rfl⟩
            rw [readEntries, first]
            exact inductionHypothesis.mpr rest

namespace Fills

theorem get?_eq_some_iff {value : field.Setting} (fills : Fills draft rows after) :
    after.get? field = some value ↔
      draft.get? field = some value ∨
        ∃ row ∈ rows, Names row.1 field ∧ read? field row.2 = some value := by
  induction fills with
  | nil => simp
  | cons names new read rest inductionHypothesis =>
      rw [inductionHypothesis, get?_set_iff names new read]
      simp [or_assoc]

/-- No row gives what was given before. -/
theorem get?_eq_none (fills : Fills draft rows after) {row : Row} (member : row ∈ rows)
    (names : Names row.1 field) : draft.get? field = none := by
  induction fills with
  | nil => cases member
  | @cons _ _ first _ given _ firstNames new read rest inductionHypothesis =>
      rcases List.mem_cons.mp member with rfl | later
      · rw [names.unique firstNames]
        exact new
      · have between := inductionHypothesis later
        by_cases same : field = given
        · subst same
          exact new
        · rwa [Draft.get?_set_of_ne same] at between

theorem lawful (fills : Fills draft rows after) : Lawful Readable rows := by
  induction fills with
  | nil => exact ⟨by simp, .nil, by simp⟩
  | @cons _ _ first later field value names new read rest inductionHypothesis =>
      refine ⟨?_, ?_, ?_⟩
      · intro row member
        rcases List.mem_cons.mp member with rfl | later
        · exact ⟨field, names⟩
        · exact inductionHypothesis.known row later
      · refine List.pairwise_cons.mpr ⟨?_, inductionHypothesis.once⟩
        intro row member other firstNames laterNames
        -- A later row that names the field would find it given.
        have given := rest.get?_eq_none member laterNames
        rw [firstNames.unique names, Draft.get?_set_self] at given
        cases given
      · intro row member other others
        rcases List.mem_cons.mp member with rfl | later
        · rw [others.unique names, Readable, read]
          rfl
        · exact inductionHypothesis.suited row later other others

end Fills

theorem Lawful.tail {suits : Field → Content → Prop} {row : Row}
    (lawful : Lawful suits (row :: rows)) : Lawful suits rows where
  known later member := lawful.known later (List.mem_cons_of_mem _ member)
  once := lawful.once.of_cons
  suited later member := lawful.suited later (List.mem_cons_of_mem _ member)

/-- What is readable is read if none of it was given before. -/
theorem Lawful.exists_fills (lawful : Lawful Readable rows)
    (new : ∀ row ∈ rows, ∀ field, Names row.1 field → draft.get? field = none) :
    ∃ after, Fills draft rows after := by
  induction rows generalizing draft with
  | nil => exact ⟨draft, .nil⟩
  | cons row rows inductionHypothesis =>
      obtain ⟨field, names⟩ := lawful.known row List.mem_cons_self
      obtain ⟨value, read⟩ :=
        Option.isSome_iff_exists.mp (lawful.suited row List.mem_cons_self field names)
      have stillNew : ∀ later ∈ rows, ∀ other, Names later.1 other →
          (draft.set field value).get? other = none := by
        intro later member other laterNames
        have differ : other ≠ field := by
          rintro rfl
          exact (List.pairwise_cons.mp lawful.once).1 later member other names laterNames
        rw [Draft.get?_set_of_ne differ]
        exact new later (List.mem_cons_of_mem _ member) other laterNames
      obtain ⟨after, rest⟩ := inductionHypothesis lawful.tail stillNew
      exact ⟨after, .cons names (new row List.mem_cons_self field names) read rest⟩

/-- Two rows of a mapping do not name the same field. -/
theorem Lawful.eq_of_names {suits : Field → Content → Prop} (lawful : Lawful suits rows)
    {row other : Row} (member : row ∈ rows) (names : Names row.1 field)
    (otherMember : other ∈ rows) (otherNames : Names other.1 field) : row = other := by
  by_contra differ
  exact lawful.once.forall member otherMember differ field names otherNames

theorem Lawful.perm {suits : Field → Content → Prop} (lawful : Lawful suits rows)
    (reordered : rows.Perm others) : Lawful suits others where
  known row member := lawful.known row (reordered.mem_iff.mpr member)
  once := reordered.pairwise lawful.once (Std.Symm.symm _ _)
  suited row member := lawful.suited row (reordered.mem_iff.mpr member)

end Entries

/-! ### The settings of a draft -/

section Drafts

variable {mapping : Place} {draft : Draft} {entries : List Entry} {rows : List Row}
  {settings : Settings} {fault : Fault}

theorem Draft.settings_eq_ok_iff :
    draft.settings = .ok settings ↔
      ∀ field, settings.get field = (draft.get? field).getD (default.get field) := by
  simp only [Draft.settings]
  constructor
  · intro given field
    split at given
    · cases given
      cases field <;> rfl
    · cases given
  · intro taken
    have positive := settings.maxDisplay_pos
    have count : settings.maxDisplay = draft.maxDisplay.getD default.maxDisplay :=
      taken .maxDisplay
    rw [dif_pos (count ▸ positive)]
    refine congrArg Except.ok (eq_of_get fun field => ?_)
    rw [taken field]
    cases field <;> rfl

/-- Only a count of zero makes no settings. -/
theorem Draft.settings_eq_error_iff :
    draft.settings = .error fault ↔
      draft.get? .maxDisplay = some 0 ∧ fault = .general .zeroMaxDisplay := by
  simp only [Draft.settings]
  split
  · rename_i positive
    have listed : draft.maxDisplay ≠ some 0 := by
      intro zero
      rw [zero] at positive
      cases positive
    simp [Draft.get?, listed]
  · rename_i zero
    have given : draft.maxDisplay = some 0 := by
      cases counted : draft.maxDisplay with
      | none => exact absurd (by rw [counted]; decide) zero
      | some count =>
          rw [counted] at zero
          exact congrArg some (Nat.eq_zero_of_not_pos zero)
    simp [Draft.get?, given, eq_comm]

/-- The settings of a mapping are those of the draft that its rows fill. -/
theorem ofEntries_eq_ok_iff_fills :
    ofEntries mapping entries = .ok settings ↔
      ∃ draft, Fills {} (entries.map rowOf) draft ∧ draft.settings = .ok settings := by
  simp only [← readEntries_eq_ok_iff mapping, ofEntries]
  cases readEntries mapping {} entries <;> simp

/-- Whether a written zero is given. -/
theorem Fills.zero_iff (fills : Fills {} rows draft) :
    draft.get? .maxDisplay = some (0 : Nat) ↔
      ∃ row ∈ rows, Names row.1 .maxDisplay ∧ count? row.2 = some 0 := by
  rw [fills.get?_eq_some_iff]
  simp [read?]

end Drafts

/-! ### What is wrong with entries -/

section Faults

variable {mapping : Place} {draft : Draft} {entries : List Entry} {fault : Fault}

theorem problem_of_readNewField {key : Node}
    (failed : readNewField mapping draft key = .error fault) : fault.problem ≠ .zeroMaxDisplay := by
  unfold readNewField readField readKey at failed
  grind [Fault.placed]

theorem problem_of_readValue {label : String} {field : Field} {node : Node}
    (failed : readValue mapping label field node draft = .error fault) :
    fault.problem ≠ .zeroMaxDisplay := by
  unfold readValue at failed
  cases field <;> simp only at failed <;> split at failed <;> cases failed <;> simp [Fault.placed]

/-- What is wrong with an entry is never that no unit would be listed. -/
theorem problem_of_readEntries (failed : readEntries mapping draft entries = .error fault) :
    fault.problem ≠ .zeroMaxDisplay := by
  induction entries generalizing draft with
  | nil => cases failed
  | cons entry entries inductionHypothesis =>
      unfold readEntries readEntry at failed
      grind [problem_of_readNewField, problem_of_readValue]

/-- `DraftOf document draft`: what reading a document comes to. -/
inductive DraftOf (document : Document) : Except Fault Draft → Prop where
  | empty : DraftOf document (.ok {})
  | mapping {place : Place} {draft : Draft} (top : document.top = some ⟨.mapping, place⟩)
      (read : readEntries place {} document.entries = .ok draft) : DraftOf document (.ok draft)
  | wrongEntry {place : Place} {fault : Fault}
      (failed : readEntries place {} document.entries = .error fault) :
      DraftOf document (.error fault)
  /-- The key without a value is judged behind all entries. -/
  | wrongKey {place : Place} {draft : Draft} {key : Node} {fault : Fault}
      (failed : readNewField place draft key = .error fault) : DraftOf document (.error fault)
  | noMapping {found : Found} {place : Place} :
      DraftOf document (.error (.placed (.wrongType "" found .settings) place))

theorem draftOf_readDocument (document : Document) :
    DraftOf document (Settings.readDocument document) := by
  unfold Settings.readDocument
  split
  · exact .empty
  · rename_i top reached
    split
    · rename_i isMapping
      have mapping : document.top = some ⟨.mapping, top.place⟩ := by rw [reached, ← isMapping]
      split
      · rename_i failed
        exact .wrongEntry failed
      · rename_i read _
        exact .mapping mapping read
      · rename_i draft key read _
        cases judged : readNewField top.place draft key with
        | error fault => exact .wrongKey judged
        | ok field => exact .mapping mapping read
    · exact .empty
    · exact .noMapping

theorem problem_of_readDocument {document : Document}
    (failed : Settings.readDocument document = .error fault) :
    fault.problem ≠ .zeroMaxDisplay := by
  have draftOf := draftOf_readDocument document
  rw [failed] at draftOf
  cases draftOf with
  | wrongEntry failed => exact problem_of_readEntries failed
  | wrongKey failed => exact problem_of_readNewField failed
  | noMapping => simp [Fault.placed]

/-- A document that gives a setting is a mapping, and nothing is wrong with its entries. -/
theorem fills_of_readDocument {document : Document}
    (read : Settings.readDocument document = .ok draft) (given : draft ≠ {}) :
    ∃ place, document.top = some ⟨.mapping, place⟩ ∧
      Fills {} (document.entries.map rowOf) draft := by
  have draftOf := draftOf_readDocument document
  rw [read] at draftOf
  cases draftOf with
  | empty => exact absurd rfl given
  | mapping top all => exact ⟨_, top, (readEntries_eq_ok_iff _).mp all⟩

end Faults

end BuildImpact.Settings
