/-
Module: BuildImpact.Proofs.Snapshot.Presentation
Layer: Proofs
Purpose: How a snapshot is presented does not matter.  The fields of an edge may change
  places and further fields may come between them, an edge may be written as a list of two,
  entries of different sources may change places, and blanks may stand between all tokens.
  Each of these rewrites leaves the entries that count as they are, so that the same graph
  is loaded.
Imports: Mathlib.Data.List.Perm.Basic, BuildImpact.Proofs.Snapshot.RoundTrip,
  BuildImpact.Proofs.Snapshot.Tokens
Trusted boundary: none
Main exports: Snapshot.EdgeTree.Rewrites, Snapshot.EdgeTree.Means.rewrite,
  Snapshot.Document.Rewrites, Snapshot.Document.Means.rewrite, Snapshot.lastList_append_iff,
  Snapshot.load_of_same_lists, Snapshot.Presentable, Snapshot.presentation_irrelevant
Open obligations: none
-/
import Mathlib.Data.List.Perm.Basic
import BuildImpact.Proofs.Snapshot.RoundTrip
import BuildImpact.Proofs.Snapshot.Tokens

namespace BuildImpact.Snapshot

open Json

/-! ### Related lists -/

section Related

variable {α β : Type} {Related : α → β → Prop}

/-- What is related to two lists in a row falls into two lists itself. -/
theorem exists_of_forall₂_append {front back : List α} {values : List β}
    (related : List.Forall₂ Related (front ++ back) values) :
    ∃ first second, values = first ++ second ∧ List.Forall₂ Related front first ∧
      List.Forall₂ Related back second := by
  have inFront := List.forall₂_take front.length related
  have behind := List.forall₂_drop front.length related
  rw [List.take_left] at inFront
  rw [List.drop_left] at behind
  exact ⟨_, _, (List.take_append_drop front.length values).symm, inFront, behind⟩

/-- One item of a list may be replaced by another one that is related to the same. -/
theorem forall₂_replace {front back : List α} {item other : α} {values : List β}
    (related : List.Forall₂ Related (front ++ item :: back) values)
    (replaces : ∀ value, Related item value → Related other value) :
    List.Forall₂ Related (front ++ other :: back) values := by
  obtain ⟨first, second, rfl, inFront, behind⟩ := exists_of_forall₂_append related
  obtain ⟨value, rest, isRelated, others, rfl⟩ := List.forall₂_cons_left_iff.mp behind
  exact List.rel_append inFront (.cons (replaces value isRelated) others)

/-- What is related to a list stands in the order of the list. -/
theorem exists_perm_of_forall₂ {items others : List α} {values : List β}
    (order : items.Perm others) (related : List.Forall₂ Related items values) :
    ∃ reordered, values.Perm reordered ∧ List.Forall₂ Related others reordered := by
  obtain ⟨reordered, isRelated, same⟩ := List.perm_comp_forall₂ order.symm related
  exact ⟨reordered, same.symm, isRelated⟩

theorem exists_of_mem_forall₂ {items : List α} {values : List β}
    (related : List.Forall₂ Related items values) {value : β} (member : value ∈ values) :
    ∃ item ∈ items, Related item value := by
  induction related with
  | nil => cases member
  | cons first _ inductionHypothesis =>
      rcases List.mem_cons.mp member with rfl | later
      · exact ⟨_, List.mem_cons_self, first⟩
      · obtain ⟨item, isItem, isRelated⟩ := inductionHypothesis later
        exact ⟨item, List.mem_cons_of_mem _ isItem, isRelated⟩

end Related

/-! ### Edges -/

/-- Whether a field is none of those of an edge: it has another name and any value. -/
structure FieldTree.Further (field : FieldTree) : Prop where
  named : ∃ text, Names field.name text ∧ text ≠ "id" ∧ text ≠ "type"
  value : Shape .value field.value

/-- Other ways to write an edge. -/
inductive EdgeTree.Rewrites : EdgeTree → EdgeTree → Prop where
  /-- The fields of an edge change places. -/
  | reorder {fields others : List FieldTree} (order : fields.Perm others) :
      Rewrites (.object fields) (.object others)
  /-- A further field comes in, which may have the name of another one. -/
  | insert (front back : List FieldTree) {field : FieldTree} (further : field.Further) :
      Rewrites (.object (front ++ back)) (.object (front ++ field :: back))
  /-- A list of two stands for the object. -/
  | asPair {idName typeName : List UInt8} (target kindName : List UInt8)
      (isId : Names idName "id") (isType : Names typeName "type") :
      Rewrites (.object [⟨idName, [target]⟩, ⟨typeName, [kindName]⟩]) (.pair target kindName)

/-- A token names one text. -/
theorem Names.unique {token : List UInt8} {one other : String} (isOne : Names token one)
    (isOther : Names token other) : one = other := by
  obtain ⟨body, rfl, spells⟩ := isOne
  obtain ⟨_, ⟨⟩, spellsOther⟩ := isOther
  have read := readString_eq_ok_iff.mpr (spells [])
  have again := readString_eq_ok_iff.mpr (spellsOther [])
  rw [read] at again
  cases again
  rfl

variable {N : Type} [SnapshotId N] [SpelledId N]

theorem FieldTree.Further.means {field : FieldTree} (further : field.Further) :
    field.Means (Field.other : Field N) := by
  obtain ⟨⟨text, named, isOther⟩, value⟩ := further
  exact .other isOther named value

theorem FieldTree.target_of_named {name text : List UInt8} {field : Field N}
    (meant : FieldTree.Means ⟨name, [text]⟩ field) (isId : Names name "id") :
    ∃ unit, field = .target unit ∧ Spells (SpelledId.Target · unit ·) text := by
  cases meant with
  | target _ target => exact ⟨_, rfl, target⟩
  | kindName named => exact absurd (named.unique isId) (by decide)
  | other isOther named => exact absurd (named.unique isId) isOther.1

theorem FieldTree.kindName_of_named {name text : List UInt8} {field : Field N}
    (meant : FieldTree.Means ⟨name, [text]⟩ field) (isType : Names name "type") :
    ∃ kind, field = .kindName kind ∧ Names text kind := by
  cases meant with
  | target named => exact absurd (named.unique isType) (by decide)
  | kindName _ kindName => exact ⟨_, rfl, kindName⟩
  | other isOther named => exact absurd (named.unique isType) isOther.2

/-- Fields in another order are the same edge. -/
theorem EdgeTree.Means.reorder {fields others : List FieldTree} {edge : WrittenEdge N}
    (meant : (EdgeTree.object fields).Means edge) (order : fields.Perm others) :
    (EdgeTree.object others).Means edge := by
  cases meant with
  | object meant oneTarget oneKind =>
      obtain ⟨given, same, others⟩ := exists_perm_of_forall₂ order meant
      have targets := (same.filterMap Field.target?).symm
      have kinds := (same.filterMap Field.kindName?).symm
      rw [oneTarget] at targets
      rw [oneKind] at kinds
      exact .object others targets.eq_singleton kinds.eq_singleton

/-- An edge that is written in another way is the same edge. -/
theorem EdgeTree.Means.rewrite {tree other : EdgeTree} {edge : WrittenEdge N}
    (meant : tree.Means edge) (rewrites : tree.Rewrites other) : other.Means edge := by
  cases rewrites with
  | reorder order => exact meant.reorder order
  | insert front back further =>
      -- The field stands in front of all others first, and then finds its place.
      cases meant with
      | object meant oneTarget oneKind =>
          have inFront : (EdgeTree.object (_ :: (front ++ back))).Means edge :=
            .object (.cons further.means meant) oneTarget oneKind
          exact inFront.reorder List.perm_middle.symm
  | asPair target kindName isId isType =>
      cases meant with
      | object meant oneTarget oneKind =>
          obtain ⟨first, _, firstMeant, onward, rfl⟩ := List.forall₂_cons_left_iff.mp meant
          obtain ⟨second, _, secondMeant, none, rfl⟩ := List.forall₂_cons_left_iff.mp onward
          cases List.forall₂_nil_left_iff.mp none
          obtain ⟨unit, rfl, isTarget⟩ := FieldTree.target_of_named firstMeant isId
          obtain ⟨kind, rfl, isKind⟩ := FieldTree.kindName_of_named secondMeant isType
          cases oneTarget
          cases oneKind
          exact .pair isTarget isKind

/-! ### Documents -/

/-- Whether two entries are those of different sources. -/
def EntryTree.Apart (N : Type) [SnapshotId N] [SpelledId N] (one other : EntryTree) : Prop :=
  ∀ unit : N, Keys one.key unit → ¬ Keys other.key unit

/-- Other ways to write a snapshot of units of a type. -/
inductive Document.Rewrites (N : Type) [SnapshotId N] [SpelledId N] :
    List EntryTree → List EntryTree → Prop where
  /-- One edge is written in another way. -/
  | edge (front back : List EntryTree) (key : List UInt8) (before after : List EdgeTree)
      {tree other : EdgeTree} (rewrites : tree.Rewrites other) :
      Rewrites N (front ++ ⟨key, before ++ tree :: after⟩ :: back)
        (front ++ ⟨key, before ++ other :: after⟩ :: back)
  /-- Entries of different sources change places. -/
  | reorder (front back : List EntryTree) {entries others : List EntryTree}
      (order : entries.Perm others) (apart : entries.Pairwise (EntryTree.Apart N)) :
      Rewrites N (front ++ (entries ++ back)) (front ++ (others ++ back))

/-! ### The list that counts -/

omit [SnapshotId N] [SpelledId N] in
/-- The last list of a source stands in the second part if that has one. -/
theorem lastList_append_iff {front back : List (Entry N)} {source : N}
    {raws : List (WrittenEdge N)} :
    LastList (front ++ back) source raws ↔
      LastList back source raws ∨ (source ∉ back.map (·.1) ∧ LastList front source raws) := by
  induction back using List.reverseRecOn with
  | nil => simp [LastList]
  | append_singleton back entry inductionHypothesis =>
      rw [← List.append_assoc, lastList_snoc_iff, lastList_snoc_iff, inductionHypothesis]
      by_cases same : entry.1 = source
      · simp [same]
      · simp [same, Ne.symm same, or_assoc]

omit [SnapshotId N] [SpelledId N] in
/-- Where each source has one list, the order of the entries does not matter. -/
theorem lastList_perm_iff {entries others : List (Entry N)} (order : entries.Perm others)
    (once : (entries.map (·.1)).Nodup) {source : N} {raws : List (WrittenEdge N)} :
    LastList others source raws ↔ LastList entries source raws := by
  have onceThere : (others.map (·.1)).Nodup := (order.map (·.1)).nodup_iff.mp once
  constructor
  · exact fun last => lastList_of_nodup once (order.mem_iff.mpr last.mem)
  · exact fun last => lastList_of_nodup onceThere (order.mem_iff.mp last.mem)

omit [SnapshotId N] [SpelledId N] in
theorem lastList_reorder_iff (front : List (Entry N)) {entries others : List (Entry N)}
    (back : List (Entry N)) (order : entries.Perm others) (once : (entries.map (·.1)).Nodup)
    (source : N) (raws : List (WrittenEdge N)) :
    LastList (front ++ (others ++ back)) source raws ↔
      LastList (front ++ (entries ++ back)) source raws := by
  have keys : source ∉ (others ++ back).map (·.1) ↔ source ∉ (entries ++ back).map (·.1) := by
    rw [List.map_append, List.map_append, List.mem_append, List.mem_append,
      (order.map (·.1)).mem_iff]
  rw [lastList_append_iff, lastList_append_iff, keys, lastList_append_iff, lastList_append_iff,
    lastList_perm_iff order once]

/-- Entries of different sources have different keys. -/
theorem nodup_of_apart {trees : List EntryTree} {entries : List (Entry N)}
    (meant : List.Forall₂ EntryTree.Means trees entries)
    (apart : trees.Pairwise (EntryTree.Apart N)) : (entries.map (·.1)).Nodup := by
  induction meant with
  | nil => exact List.nodup_nil
  | cons first others inductionHypothesis =>
      obtain ⟨fromFirst, rest⟩ := List.pairwise_cons.mp apart
      rw [List.map_cons, List.nodup_cons]
      refine ⟨fun member => ?_, inductionHypothesis rest⟩
      obtain ⟨entry, isEntry, same⟩ := List.mem_map.mp member
      obtain ⟨tree, isTree, means⟩ := exists_of_mem_forall₂ others isEntry
      exact fromFirst tree isTree _ first.key (same ▸ means.key)

/-- A snapshot that is written in another way gives each source the same list. -/
theorem Document.Means.rewrite {document other : List EntryTree} {entries : List (Entry N)}
    (meant : Document.Means document entries) (rewrites : Document.Rewrites N document other) :
    ∃ others, Document.Means other others ∧
      ∀ unit raws, LastList others unit raws ↔ LastList entries unit raws := by
  cases rewrites with
  | edge front back key before after rewrites =>
      refine ⟨entries, forall₂_replace meant fun entry means => ?_, fun _ _ => .rfl⟩
      exact ⟨means.key, forall₂_replace means.edges fun edge isEdge => isEdge.rewrite rewrites⟩
  | reorder front back order apart =>
      obtain ⟨first, onward, rfl, inFront, behind⟩ := exists_of_forall₂_append meant
      obtain ⟨block, last, rfl, inBlock, inBack⟩ := exists_of_forall₂_append behind
      obtain ⟨reordered, same, isRelated⟩ := exists_perm_of_forall₂ order inBlock
      refine ⟨first ++ (reordered ++ last), ?_, ?_⟩
      · exact List.rel_append inFront (List.rel_append isRelated inBack)
      · exact lastList_reorder_iff first last same (nodup_of_apart inBlock apart)

/-- So does one that is written in another way many times over. -/
theorem Document.Means.rewriteAll {document other : List EntryTree} {entries : List (Entry N)}
    (meant : Document.Means document entries)
    (rewrites : Relation.ReflTransGen (Document.Rewrites N) document other) :
    ∃ others, Document.Means other others ∧
      ∀ unit raws, LastList others unit raws ↔ LastList entries unit raws := by
  induction rewrites with
  | refl => exact ⟨entries, meant, fun _ _ => .rfl⟩
  | tail _ step inductionHypothesis =>
      obtain ⟨middle, middleMeant, same⟩ := inductionHypothesis
      obtain ⟨others, othersMeant, again⟩ := middleMeant.rewrite step
      exact ⟨others, othersMeant, fun unit raws => (again unit raws).trans (same unit raws)⟩

/-! ### Loading -/

variable [BEq N] [Hashable N] [LawfulBEq N]

/-- Snapshots that give each source the same list are loaded as the same graph. -/
theorem load_of_same_lists {source : Source} {bytes text : List UInt8} {graph : BuildGraph N}
    {entries others : List (Entry N)} (loaded : load source bytes = .ok graph)
    (form : DocumentForm bytes entries) (otherForm : DocumentForm text others)
    (same : ∀ unit raws, LastList others unit raws ↔ LastList entries unit raws)
    (again : Source) :
    ∃ reloaded : BuildGraph N, load again text = .ok reloaded ∧ reloaded.SameEdges graph := by
  have holds : Matches graph entries := by
    apply matches_of_build
    rw [load_of_document form] at loaded
    cases built : build entries with
    | error name =>
        rw [built] at loaded
        cases loaded
    | ok given =>
        rw [built] at loaded
        cases loaded
        rfl
  have known : ∀ unit raws, LastList others unit raws →
      ∀ raw ∈ raws, raw.kindName ∈ kindNames :=
    fun unit raws last => holds.known ((same unit raws).mp last)
  obtain ⟨reloaded, taken, holdsThere⟩ := load_of_known otherForm known
  refine ⟨reloaded, taken again, fun unit => Option.ext fun edges => ?_⟩
  rw [holdsThere.getElem?_eq_some_iff, same, holds.getElem?_eq_some_iff]

/-- What it means that the presentation of snapshots of units of a type does not matter. -/
structure Presentable (N : Type) [BEq N] [Hashable N] [SnapshotId N] [SpelledId N] : Prop where
  /-- Every text that is accepted consists of the tokens of a snapshot. -/
  written : ∀ (source : Source) (bytes : List UInt8) (graph : BuildGraph N),
    load source bytes = .ok graph → ∃ (document : List EntryTree) (entries : List (Entry N)),
      Document.Means document entries ∧ Document.Writes document bytes
  /-- However these are rewritten, and whatever blanks stand between the tokens then, the
  text is accepted and the graph is the same. -/
  rewritten : ∀ (source : Source) (bytes : List UInt8) (graph : BuildGraph N),
    load source bytes = .ok graph → ∀ (document : List EntryTree) (entries : List (Entry N)),
      Document.Means document entries → Document.Writes document bytes →
      ∀ other, Relation.ReflTransGen (Document.Rewrites N) document other →
      ∀ text, Document.Writes other text → ∀ again : Source,
        ∃ reloaded : BuildGraph N, load again text = .ok reloaded ∧ reloaded.SameEdges graph

theorem presentable_of_tokenId [TokenId N] : Presentable N where
  written source bytes graph loaded := by
    unfold load at loaded
    split at loaded
    · cases loaded
    · rename_i entries read
      obtain ⟨document, meant, writes⟩ :=
        documentForm_iff_tree.mp (readDocument_eq_ok_iff.mp read)
      exact ⟨document, entries, meant, writes⟩
  rewritten source bytes graph loaded document entries meant writes other rewrites text written
      again := by
    obtain ⟨others, otherMeant, same⟩ := meant.rewriteAll rewrites
    exact load_of_same_lists loaded (documentForm_iff_tree.mpr ⟨document, meant, writes⟩)
      (documentForm_iff_tree.mpr ⟨other, otherMeant, written⟩) same again

/-- The presentation of a snapshot does not matter, whether its units are texts or integers
of any width. -/
theorem presentation_irrelevant :
    Presentable String ∧ Presentable UInt8 ∧ Presentable UInt32 ∧ Presentable Int64 :=
  ⟨presentable_of_tokenId, presentable_of_tokenId, presentable_of_tokenId,
    presentable_of_tokenId⟩

/-! ### A snapshot in two presentations -/

/-- The token of a text as it is printed. -/
def quoted (text : String) : List UInt8 := Utf8.encode (quote text)

theorem names_quoted (text : String) : Names (quoted text) text := by
  obtain ⟨body, split, -⟩ := stringBody_quote text []
  rw [List.append_nil] at split
  refine ⟨body, split, fun rest => ?_⟩
  obtain ⟨onward, same, spelled⟩ := stringBody_quote text rest
  rw [split, List.cons_append, List.cons.injEq] at same
  rw [same.2]
  exact spelled

/-- The tokens of a snapshot, each with the same blanks in front, write it. -/
theorem writes_flatMap (gap : List UInt8) (blank : ∀ rest, Blanks (gap ++ rest) rest)
    (document : List EntryTree) :
    Document.Writes document ((Document.tokens document).flatMap (gap ++ ·)) := by
  refine ⟨[], ?_, .none []⟩
  induction Document.tokens document with
  | nil => exact .done []
  | cons token tokens inductionHypothesis =>
      rw [List.flatMap_cons, List.append_assoc]
      exact .next (blank _) inductionHypothesis

/-- A source with one edge, with its fields in the usual order, and one without edges. -/
def plainDocument : List EntryTree :=
  [⟨quoted "a", [.object [⟨quoted "id", [quoted "b"]⟩, ⟨quoted "type", [quoted "compile"]⟩]]⟩,
    ⟨quoted "c", []⟩]

/-- The same sources and fields the other way round, with a further field between them. -/
def dressedDocument : List EntryTree :=
  [⟨quoted "c", []⟩,
    ⟨quoted "a", [.object [⟨quoted "type", [quoted "compile"]⟩,
      ⟨quoted "note", [[0x5b], [0x5d]]⟩, ⟨quoted "id", [quoted "b"]⟩]]⟩]

theorem means_plainDocument :
    Document.Means plainDocument [("a", [⟨"b", "compile"⟩]), ("c", [])] := by
  have isTarget : FieldTree.Means ⟨quoted "id", [quoted "b"]⟩ (.target "b") :=
    .target (names_quoted "id") (stringBody_quote "b")
  have isKind : FieldTree.Means ⟨quoted "type", [quoted "compile"]⟩
      (.kindName "compile" : Field String) :=
    .kindName (names_quoted "type") (names_quoted "compile")
  have edge : EdgeTree.Means _ (⟨"b", "compile"⟩ : WrittenEdge String) :=
    .object (.cons isTarget (.cons isKind .nil)) rfl rfl
  exact .cons ⟨names_quoted "a", .cons edge .nil⟩ (.cons ⟨names_quoted "c", .nil⟩ .nil)

theorem rewrites_plainDocument :
    Relation.ReflTransGen (Document.Rewrites String) plainDocument dressedDocument := by
  have further : FieldTree.Further ⟨quoted "note", [[0x5b], [0x5d]]⟩ :=
    ⟨⟨"note", names_quoted "note", by decide⟩, .bracketed (.empty .list)⟩
  have apart : ∀ edges others,
      EntryTree.Apart String ⟨quoted "a", edges⟩ ⟨quoted "c", others⟩ := by
    intro edges others unit isFirst isSecond
    cases (names_quoted "a").unique isFirst
    exact absurd ((names_quoted "c").unique isSecond) (by decide)
  have turned : Document.Rewrites String plainDocument
      [⟨quoted "a", [.object [⟨quoted "type", [quoted "compile"]⟩, ⟨quoted "id", [quoted "b"]⟩]]⟩,
        ⟨quoted "c", []⟩] :=
    .edge [] _ _ [] [] (.reorder (.swap _ _ []))
  have inserted : Document.Rewrites String _
      [⟨quoted "a", [.object [⟨quoted "type", [quoted "compile"]⟩,
        ⟨quoted "note", [[0x5b], [0x5d]]⟩, ⟨quoted "id", [quoted "b"]⟩]]⟩, ⟨quoted "c", []⟩] :=
    .edge [] _ _ [] [] (.insert [⟨quoted "type", [quoted "compile"]⟩] _ further)
  have moved : Document.Rewrites String _ dressedDocument :=
    .reorder [] [] (.swap _ _ []) (List.pairwise_pair.mpr (apart _ _))
  exact ((Relation.ReflTransGen.single turned).tail inserted).tail moved

/-- Both are loaded, the second one with a blank in front of each token, and as the same
graph. -/
theorem presentation_irrelevant_dressed :
    ∃ graph reloaded : BuildGraph String,
      load .text (Utf8.encode
        "\x7b\"a\":[\x7b\"id\":\"b\",\"type\":\"compile\"\x7d],\"c\":[]\x7d") = .ok graph ∧
      load .text (Utf8.encode (" \x7b \"c\" : [ ] , \"a\" : [ " ++
        "\x7b \"type\" : \"compile\" , \"note\" : [ ] , \"id\" : \"b\" \x7d ] \x7d")) =
        .ok reloaded ∧
      reloaded.SameEdges graph := by
  have plain : Utf8.encode
      "\x7b\"a\":[\x7b\"id\":\"b\",\"type\":\"compile\"\x7d],\"c\":[]\x7d" =
        (Document.tokens plainDocument).flatMap ([] ++ ·) := by
    decide +kernel
  have dressed : Utf8.encode (" \x7b \"c\" : [ ] , \"a\" : [ " ++
      "\x7b \"type\" : \"compile\" , \"note\" : [ ] , \"id\" : \"b\" \x7d ] \x7d") =
        (Document.tokens dressedDocument).flatMap ([0x20] ++ ·) := by
    decide +kernel
  have plainWrites := writes_flatMap [] (fun rest => .none rest) plainDocument
  have dressedWrites :=
    writes_flatMap [0x20] (fun rest => .more (by decide) (.none rest)) dressedDocument
  have form := documentForm_iff_tree.mpr ⟨plainDocument, means_plainDocument, plainWrites⟩
  have known : ∀ unit raws, LastList [("a", [⟨"b", "compile"⟩]), ("c", [])] unit raws →
      ∀ raw ∈ raws, raw.kindName ∈ kindNames := by
    intro unit raws last
    have member := last.mem
    simp only [List.mem_cons, Prod.mk.injEq, List.not_mem_nil, or_false] at member
    rcases member with ⟨-, rfl⟩ | ⟨-, rfl⟩ <;> decide
  obtain ⟨graph, loaded, -⟩ := load_of_known form known
  obtain ⟨presentable, -⟩ := presentation_irrelevant
  obtain ⟨reloaded, taken, same⟩ := presentable.rewritten .text _ graph (loaded .text) plainDocument
    _ means_plainDocument plainWrites dressedDocument rewrites_plainDocument _ dressedWrites .text
  rw [plain, dressed]
  exact ⟨graph, reloaded, loaded .text, taken, same⟩

end BuildImpact.Snapshot
