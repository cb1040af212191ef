/-
Module: BuildImpact.Proofs.Snapshot.Reader
Layer: Proofs
Purpose: The reader accepts exactly the snapshots of the grammar, and what it gives is
  what the grammar says.  Fields of an edge come in any order, so the fields that have
  been read are related to those still to come.
Imports: BuildImpact.Proofs.Snapshot.Grammar
Trusted boundary: none
Main exports: Snapshot.readEdge_eq_ok_iff, Snapshot.readEdges_eq_ok_iff,
  Snapshot.readEntry_eq_ok_iff, Snapshot.readDocument_eq_ok_iff
Open obligations: none
-/
import BuildImpact.Proofs.Snapshot.Grammar

namespace BuildImpact.Snapshot

open Json

variable {N : Type}

/-! ### Fields that have been read -/

namespace Fields

def add (fields : Fields N) : Field N → Fields N
  | .target unit => { fields with target := some unit }
  | .kindName name => { fields with kindName := some name }
  | .other => fields

/-- Whether a field gives nothing that has been read before. -/
def Lacks (fields : Fields N) : Field N → Prop
  | .target _ => fields.target = none
  | .kindName _ => fields.kindName = none
  | .other => True

/-- Whether the fields read and those given make an edge. -/
def Gives (fields : Fields N) (given : List (Field N)) (edge : WrittenEdge N) : Prop :=
  fields.target.toList ++ given.filterMap Field.target? = [edge.target] ∧
    fields.kindName.toList ++ given.filterMap Field.kindName? = [edge.kindName]

theorem complete_eq_ok_iff {fields : Fields N} {edge : WrittenEdge N} {bytes rest : List UInt8} :
    fields.complete bytes = .ok (edge, rest) ↔ fields.Gives [] edge ∧ bytes = rest := by
  obtain ⟨target, kindName⟩ := fields
  cases edge
  cases target <;> cases kindName <;> simp [complete, Gives, mismatch, and_assoc]

theorem gives_cons_iff {fields : Fields N} {field : Field N} {given : List (Field N)}
    {edge : WrittenEdge N} :
    fields.Gives (field :: given) edge ↔
      fields.Lacks field ∧ (fields.add field).Gives given edge := by
  obtain ⟨target, kindName⟩ := fields
  cases field with
  | target => cases target <;> simp [Gives, Lacks, add, List.filterMap_cons]
  | kindName => cases kindName <;> simp [Gives, Lacks, add, List.filterMap_cons]
  | other => simp [Gives, Lacks, add, List.filterMap_cons]

end Fields

variable [SnapshotId N] [SpelledId N]

/-! ### Edges as objects -/

theorem field_of_readField {fields read : Fields N} {name : String} {body bytes rest : List UInt8}
    (named : StringBody body (Utf8.encode name) bytes)
    (taken : readField fields name bytes = .ok (read, rest)) :
    ∃ field, FieldForm (0x22 :: body) field rest ∧ fields.Lacks field ∧
      read = fields.add field := by
  unfold readField at taken
  split at taken
  · rename_i isTarget
    cases eq_of_beq isTarget
    split at taken
    · exact absurd taken duplicateField_ne_ok
    rename_i lacks
    split at taken
    · cases taken
    rename_i colon
    split at taken
    · cases taken
    rename_i unit _ target
    cases taken
    obtain ⟨start, blanks, form⟩ := SpelledId.target_of_readTarget target
    exact ⟨.target unit, .target named (readColon_eq_ok_iff.mp colon) blanks form,
      Option.not_isSome_iff_eq_none.mp lacks, rfl⟩
  rename_i noTarget
  split at taken
  · rename_i isKind
    cases eq_of_beq isKind
    split at taken
    · exact absurd taken duplicateField_ne_ok
    rename_i lacks
    split at taken
    · cases taken
    rename_i colon
    split at taken
    · cases taken
    rename_i kind _ kindName
    cases taken
    exact ⟨.kindName kind,
      .kindName named (readColon_eq_ok_iff.mp colon) (readText_eq_ok_iff.mp kindName),
      Option.not_isSome_iff_eq_none.mp lacks, rfl⟩
  rename_i noKind
  split at taken
  · cases taken
  rename_i colon
  split at taken
  · cases taken
  rename_i value
  cases taken
  obtain ⟨start, blanks, form⟩ := value_of_skipValue value
  rw [beq_iff_eq] at noTarget noKind
  exact ⟨.other, .other ⟨noTarget, noKind⟩ named (readColon_eq_ok_iff.mp colon) blanks form,
    trivial, rfl⟩

theorem readField_of_field {fields : Fields N} {field : Field N} {bytes rest : List UInt8}
    (form : FieldForm bytes field rest) (lacks : fields.Lacks field) (ends : Ends rest) :
    ∃ body name value, bytes = 0x22 :: body ∧ readString body = .ok (name, value) ∧
      readField fields name value = .ok (fields.add field, rest) := by
  cases form with
  | target named colon blanks target =>
      refine ⟨_, _, _, rfl, readString_eq_ok_iff.mpr named, ?_⟩
      have lacks : fields.target = none := lacks
      simp [readField, lacks, readColon_eq_ok_iff.mpr colon,
        SpelledId.readTarget_of_target blanks target ends, Fields.add]
  | kindName named colon kindName =>
      refine ⟨_, _, _, rfl, readString_eq_ok_iff.mpr named, ?_⟩
      have lacks : fields.kindName = none := lacks
      simp [readField, lacks, readColon_eq_ok_iff.mpr colon, readText_eq_ok_iff.mpr kindName,
        Fields.add]
  | other isOther named colon blanks any =>
      refine ⟨_, _, _, rfl, readString_eq_ok_iff.mpr named, ?_⟩
      simp [readField, isOther, readColon_eq_ok_iff.mpr colon, skipValue_of_value blanks any ends,
        Fields.add]

theorem listed_of_readFields {fields : Fields N} {isFirst : Bool} {bytes rest : List UInt8}
    {edge : WrittenEdge N} (taken : readFields fields isFirst bytes = .ok (edge, rest)) :
    ∃ given, Listed FieldForm 0x7d isFirst bytes given rest ∧ fields.Gives given edge := by
  fun_induction readFields fields isFirst bytes with
  | case1 => cases taken
  | case2 fields isFirst bytes after closed =>
      obtain ⟨gives, rfl⟩ := Fields.complete_eq_ok_iff.mp taken
      exact ⟨[], .close (nextKey_eq_closed_iff.mp closed), gives⟩
  | case3 => cases taken
  | case4 => cases taken
  | case5 fields isFirst bytes key opened name value named read after field inductionHypothesis =>
      obtain ⟨given, listed, gives⟩ := inductionHypothesis taken
      obtain ⟨first, form, lacks, rfl⟩ :=
        field_of_readField (readString_eq_ok_iff.mp named) field
      exact ⟨first :: given, .item (nextKey_eq_item_iff.mp opened) form listed,
        Fields.gives_cons_iff.mpr ⟨lacks, gives⟩⟩

theorem readFields_of_listed {fields : Fields N} {given : List (Field N)} {isFirst : Bool}
    {bytes rest : List UInt8} {edge : WrittenEdge N}
    (listed : Listed FieldForm 0x7d isFirst bytes given rest) (gives : fields.Gives given edge) :
    readFields fields isFirst bytes = .ok (edge, rest) := by
  induction listed generalizing fields with
  | @close isFirst bytes rest closed =>
      have next : nextKey isFirst bytes = .ok (.closed rest) := nextKey_eq_closed_iff.mpr closed
      rw [readFields.eq_def]
      split <;> rename_i found <;> cases next.symm.trans found
      exact Fields.complete_eq_ok_iff.mpr ⟨gives, rfl⟩
  | item comma first others inductionHypothesis =>
      obtain ⟨lacks, gives⟩ := Fields.gives_cons_iff.mp gives
      obtain ⟨body, name, value, rfl, named, read⟩ :=
        readField_of_field first lacks (others.ends (by decide))
      have next := nextKey_eq_item_iff.mpr comma
      rw [readFields.eq_def]
      split <;> rename_i found <;> cases next.symm.trans found
      split <;> rename_i found <;> cases named.symm.trans found
      split <;> rename_i found <;> cases read.symm.trans found
      exact inductionHypothesis gives

/-! ### Edges -/

theorem edge_of_readPair {bytes rest : List UInt8} {edge : WrittenEdge N}
    (taken : readPair bytes = .ok (edge, rest)) : EdgeForm (0x5b :: bytes) edge rest := by
  unfold readPair at taken
  split at taken
  · cases taken
  · cases taken
  rename_i opened
  split at taken
  · cases taken
  rename_i target
  split at taken
  · cases taken
  · cases taken
  rename_i second
  split at taken
  · cases taken
  rename_i kindName
  split at taken
  · cases taken
  rename_i closed
  cases taken
  have first : Blanks bytes _ := comma_of_nextItem opened
  obtain ⟨start, blanks, form⟩ := SpelledId.target_of_readTarget target
  obtain ⟨after, isComma, behind⟩ := comma_of_nextItem second
  obtain ⟨body, quote, meant⟩ := readText_eq_ok_iff.mp kindName
  exact .pair (first.trans blanks) form isComma ⟨body, behind.trans quote, meant⟩
    (closeList_eq_ok_iff.mp closed)

/-- An edge is read exactly when there is one. -/
theorem readEdge_eq_ok_iff {bytes rest : List UInt8} {edge : WrittenEdge N} :
    readEdge bytes = .ok (edge, rest) ↔ ∃ start, Blanks bytes start ∧ EdgeForm start edge rest := by
  constructor
  · intro taken
    unfold readEdge at taken
    split at taken
    · cases taken
    rename_i first after split
    split at taken
    · rename_i isList
      cases eq_of_beq isList
      exact ⟨_, token_of_skipBlanks split, edge_of_readPair taken⟩
    split at taken
    · rename_i isObject
      cases eq_of_beq isObject
      obtain ⟨given, listed, oneTarget, oneKind⟩ := listed_of_readFields taken
      exact ⟨_, token_of_skipBlanks split, .object listed oneTarget oneKind⟩
    · cases taken
  · rintro ⟨start, blanks, form⟩
    cases form with
    | object listed oneTarget oneKind =>
        have split := Token.skipBlanks_eq blanks (by decide)
        have gives : Fields.Gives ⟨none, none⟩ _ edge := ⟨oneTarget, oneKind⟩
        simp [readEdge, split, readFields_of_listed listed gives]
    | pair inside target isComma kindName closed =>
        have split := Token.skipBlanks_eq blanks (by decide)
        obtain ⟨first, more, rfl, dark, notClosed⟩ := SpelledId.target_head target
        obtain ⟨body, quote, meant⟩ := kindName
        have outset : Comma true _ _ := inside
        have opened := nextItem_of_comma outset dark notClosed
        have read := SpelledId.readTarget_of_target (.none _) target (isComma.ends (by decide))
        have comma : Comma false _ _ := ⟨_, isComma, quote⟩
        have second := nextItem_of_comma comma (by decide) (by decide)
        have text := readText_eq_ok_iff.mpr ⟨body, .none _, meant⟩
        simp [readEdge, split, readPair, opened, read, second, text,
          closeList_eq_ok_iff.mpr closed]

theorem EdgeForm.head {bytes rest : List UInt8} {edge : WrittenEdge N}
    (form : EdgeForm bytes edge rest) :
    ∃ first more, bytes = first :: more ∧ isBlank first = false ∧ first ≠ 0x5d := by
  cases form with
  | object => exact ⟨_, _, rfl, by decide, by decide⟩
  | pair => exact ⟨_, _, rfl, by decide, by decide⟩

/-! ### Lists of edges -/

theorem listed_of_readItems {gathered edges : List (WrittenEdge N)} {bytes rest : List UInt8}
    (taken : readItems gathered bytes = .ok (edges, rest)) :
    ∃ more, Listed EdgeForm 0x5d gathered.isEmpty bytes more rest ∧
      edges = gathered.reverse ++ more := by
  fun_induction readItems gathered bytes with
  | case1 => cases taken
  | case2 gathered bytes after closed =>
      cases taken
      exact ⟨[], .close (nextItem_eq_closed_iff.mp closed), by rw [List.append_nil]⟩
  | case3 => cases taken
  | case4 gathered bytes item opened edge after read inductionHypothesis =>
      obtain ⟨more, listed, rfl⟩ := inductionHypothesis taken
      obtain ⟨start, blanks, form⟩ := readEdge_eq_ok_iff.mp read
      refine ⟨edge :: more, .item (Comma.trans (comma_of_nextItem opened) blanks) form listed, ?_⟩
      rw [List.reverse_cons, List.append_assoc, List.singleton_append]

theorem readItems_of_listed {gathered more : List (WrittenEdge N)} {isFirst : Bool}
    {bytes rest : List UInt8} (listed : Listed EdgeForm 0x5d isFirst bytes more rest)
    (start : gathered.isEmpty = isFirst) :
    readItems gathered bytes = .ok (gathered.reverse ++ more, rest) := by
  induction listed generalizing gathered with
  | @close _ bytes rest closed =>
      have next : nextItem gathered.isEmpty bytes = .ok (.closed rest) :=
        nextItem_eq_closed_iff.mpr closed
      rw [readItems.eq_def]
      split <;> rename_i found <;> cases next.symm.trans found
      rw [List.append_nil]
  | item comma first others inductionHypothesis =>
      subst start
      obtain ⟨byte, more, rfl, dark, notClosed⟩ := first.head
      have next := nextItem_of_comma comma dark notClosed
      have read := readEdge_eq_ok_iff.mpr ⟨_, .none _, first⟩
      rw [readItems.eq_def]
      split <;> rename_i found <;> cases next.symm.trans found
      split <;> rename_i found <;> cases read.symm.trans found
      rw [inductionHypothesis rfl, List.reverse_cons, List.append_assoc, List.singleton_append]

theorem readEdges_eq_ok_iff {bytes rest : List UInt8} {edges : List (WrittenEdge N)} :
    readEdges bytes = .ok (edges, rest) ↔
      ∃ inside, Token 0x5b bytes inside ∧ Listed EdgeForm 0x5d true inside edges rest := by
  constructor
  · intro taken
    unfold readEdges at taken
    split at taken
    · cases taken
    rename_i first after split
    split at taken
    · rename_i isList
      cases eq_of_beq isList
      obtain ⟨more, listed, rfl⟩ := listed_of_readItems taken
      exact ⟨_, token_of_skipBlanks split, listed⟩
    · cases taken
  · rintro ⟨inside, opened, listed⟩
    have read : readItems [] inside = .ok (edges, rest) := readItems_of_listed listed rfl
    simp [readEdges, opened.skipBlanks_eq (by decide), read]

/-! ### Documents -/

theorem readEntry_eq_ok_iff {bytes rest : List UInt8} {entry : Entry N} :
    readEntry bytes = .ok (entry, rest) ↔ EntryForm (0x22 :: bytes) entry rest := by
  constructor
  · intro taken
    unfold readEntry at taken
    split at taken
    · cases taken
    rename_i key
    split at taken
    · cases taken
    rename_i colon
    split at taken
    · cases taken
    rename_i edges
    cases taken
    obtain ⟨inside, opened, listed⟩ := readEdges_eq_ok_iff.mp edges
    exact .intro (SpelledId.readKey_eq_ok_iff.mp key) (readColon_eq_ok_iff.mp colon) opened listed
  · intro form
    cases form with
    | intro key colon opened listed =>
        have edges := readEdges_eq_ok_iff.mpr ⟨_, opened, listed⟩
        simp [readEntry, SpelledId.readKey_eq_ok_iff.mpr key, readColon_eq_ok_iff.mpr colon, edges]

theorem listed_of_readEntries {gathered entries : List (Entry N)} {bytes rest : List UInt8}
    (taken : readEntries gathered bytes = .ok (entries, rest)) :
    ∃ more, Listed EntryForm 0x7d gathered.isEmpty bytes more rest ∧
      entries = gathered.reverse ++ more := by
  fun_induction readEntries gathered bytes with
  | case1 => cases taken
  | case2 gathered bytes after closed =>
      cases taken
      exact ⟨[], .close (nextKey_eq_closed_iff.mp closed), by rw [List.append_nil]⟩
  | case3 => cases taken
  | case4 gathered bytes item opened entry after read inductionHypothesis =>
      obtain ⟨more, listed, rfl⟩ := inductionHypothesis taken
      refine ⟨entry :: more,
        .item (nextKey_eq_item_iff.mp opened) (readEntry_eq_ok_iff.mp read) listed, ?_⟩
      rw [List.reverse_cons, List.append_assoc, List.singleton_append]

theorem readEntries_of_listed {gathered more : List (Entry N)} {isFirst : Bool}
    {bytes rest : List UInt8} (listed : Listed EntryForm 0x7d isFirst bytes more rest)
    (start : gathered.isEmpty = isFirst) :
    readEntries gathered bytes = .ok (gathered.reverse ++ more, rest) := by
  induction listed generalizing gathered with
  | @close _ bytes rest closed =>
      have next : nextKey gathered.isEmpty bytes = .ok (.closed rest) :=
        nextKey_eq_closed_iff.mpr closed
      rw [readEntries.eq_def]
      split <;> rename_i found <;> cases next.symm.trans found
      rw [List.append_nil]
  | item comma first others inductionHypothesis =>
      subst start
      cases first with
      | intro key colon opened listed =>
          have next := nextKey_eq_item_iff.mpr comma
          have read := readEntry_eq_ok_iff.mpr (.intro key colon opened listed)
          rw [readEntries.eq_def]
          split <;> rename_i found <;> cases next.symm.trans found
          split <;> rename_i found <;> cases read.symm.trans found
          rw [inductionHypothesis rfl, List.reverse_cons, List.append_assoc,
            List.singleton_append]

/-- A text is read exactly when it is a snapshot, and to the entries it has. -/
theorem readDocument_eq_ok_iff {bytes : List UInt8} {entries : List (Entry N)} :
    readDocument bytes = .ok entries ↔ DocumentForm bytes entries := by
  constructor
  · intro taken
    unfold readDocument at taken
    split at taken
    · cases taken
    rename_i first after split
    split at taken
    · rename_i isObject
      cases eq_of_beq isObject
      split at taken
      · cases taken
      rename_i read
      split at taken
      · cases taken
      rename_i ended
      cases taken
      obtain ⟨more, listed, rfl⟩ := listed_of_readEntries read
      exact .intro (token_of_skipBlanks split) listed (readEnd_eq_ok_iff.mp ended)
    · cases taken
  · intro form
    cases form with
    | @intro inside rest _ opened listed blanks =>
        have read : readEntries [] inside = .ok (entries, rest) := readEntries_of_listed listed rfl
        simp [readDocument, opened.skipBlanks_eq (by decide), read, readEnd_eq_ok_iff.mpr blanks]

theorem toOption_readDocument_eq_some_iff {bytes : List UInt8} {entries : List (Entry N)} :
    (readDocument bytes).toOption = some entries ↔ DocumentForm bytes entries := by
  rw [← readDocument_eq_ok_iff]
  cases (readDocument bytes : Except Failure (List (Entry N))) with
  | error failure => simp [Except.toOption]
  | ok entries => simp [Except.toOption]

end BuildImpact.Snapshot
