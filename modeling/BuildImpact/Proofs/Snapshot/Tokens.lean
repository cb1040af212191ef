/-
Module: BuildImpact.Proofs.Snapshot.Tokens
Layer: Proofs
Purpose: Snapshots as trees of tokens.  A tree holds the tokens of a snapshot as they are
  written and leaves out the blanks between them.  A text is a snapshot if it has the tokens
  of a tree, with any blanks, and its entries are those that the tree means.
Imports: BuildImpact.Proofs.Json.Tokens, BuildImpact.Proofs.Snapshot.Grammar
Trusted boundary: none
Main exports: TokenId, Snapshot.FieldTree, Snapshot.EdgeTree, Snapshot.EntryTree,
  Snapshot.Document.Means, Snapshot.Document.Writes, Snapshot.documentForm_iff_tree
Open obligations: none
-/
import BuildImpact.Proofs.Json.Tokens
import BuildImpact.Proofs.Snapshot.Grammar

namespace BuildImpact

open Json

/-! ### Units as tokens -/

/-- Units whose spelling ends where it ends, whatever follows. -/
class TokenId (N : Type) [SnapshotId N] [SpelledId N] : Prop where
  key_local : ∀ unit : N, Local (SpelledId.Key · unit ·)
  target_local : ∀ unit : N, Local (SpelledId.Target · unit ·)

instance : TokenId String where
  key_local unit := stringBody_local (Utf8.encode unit)
  target_local := by
    rintro unit bytes rest ⟨_, rfl, body⟩
    obtain ⟨text, rfl, spells⟩ := stringBody_local _ _ _ body
    exact ⟨0x22 :: text, rfl, fun rest => ⟨_, rfl, spells rest⟩⟩

instance {N : Type} [IntegerWidth N] [NarrowWidth N] : TokenId N where
  key_local := by
    rintro unit bytes rest ⟨value, integer, fits⟩
    obtain ⟨text, rfl, spells⟩ := integer_local _ _ _ integer
    refine ⟨text ++ [0x22], by simp, fun rest => ?_⟩
    rw [List.append_assoc]
    exact ⟨value, spells (0x22 :: rest), fits⟩
  target_local := by
    rintro unit bytes rest ⟨value, integer, fits⟩
    obtain ⟨text, rfl, spells⟩ := integer_local _ _ _ integer
    exact ⟨text, rfl, fun rest => ⟨value, spells rest, fits⟩⟩

namespace Snapshot

/-! ### Trees of tokens -/

/-- A field of an edge as written: its name between quotes, and the tokens of its value. -/
structure FieldTree where
  name : List UInt8
  value : List (List UInt8)

/-- An edge as written, as an object or as a list of two. -/
inductive EdgeTree where
  | object (fields : List FieldTree)
  | pair (target kindName : List UInt8)

/-- A source as written, between quotes, with its edges. -/
structure EntryTree where
  key : List UInt8
  edges : List EdgeTree

def FieldTree.tokens (field : FieldTree) : List (List UInt8) :=
  field.name :: [0x3a] :: field.value

def EdgeTree.tokens : EdgeTree → List (List UInt8)
  | .object fields => [0x7b] :: separated 0x7d true (fields.map FieldTree.tokens)
  | .pair target kindName => [[0x5b], target, [0x2c], kindName, [0x5d]]

def EntryTree.tokens (entry : EntryTree) : List (List UInt8) :=
  entry.key :: [0x3a] :: [0x5b] :: separated 0x5d true (entry.edges.map EdgeTree.tokens)

/-- The tokens of a whole snapshot. -/
def Document.tokens (document : List EntryTree) : List (List UInt8) :=
  [0x7b] :: separated 0x7d true (document.map EntryTree.tokens)

/-- Whether a text consists of the tokens of a snapshot, with blanks between them. -/
def Document.Writes (document : List EntryTree) (bytes : List UInt8) : Prop :=
  ∃ rest, Spaced (Document.tokens document) bytes rest ∧ Blanks rest []

/-! ### What a tree means -/

/-- Whether a token is a string that means a text. -/
def Names (token : List UInt8) (text : String) : Prop :=
  ∃ body, token = 0x22 :: body ∧ Spells (StringBody · (Utf8.encode text) ·) body

variable {N : Type} [SnapshotId N] [SpelledId N]

inductive FieldTree.Means : FieldTree → Field N → Prop where
  | target {name text : List UInt8} {unit : N} (named : Names name "id")
      (target : Spells (SpelledId.Target · unit ·) text) : Means ⟨name, [text]⟩ (.target unit)
  | kindName {name text : List UInt8} {kind : String} (named : Names name "type")
      (kindName : Names text kind) : Means ⟨name, [text]⟩ (.kindName kind)
  /-- A further field has a name of its own and a value of any depth. -/
  | other {name : List UInt8} {value : List (List UInt8)} {text : String}
      (isOther : text ≠ "id" ∧ text ≠ "type") (named : Names name text)
      (any : Shape .value value) : Means ⟨name, value⟩ .other

inductive EdgeTree.Means : EdgeTree → WrittenEdge N → Prop where
  | object {fields : List FieldTree} {given : List (Field N)} {edge : WrittenEdge N}
      (meant : List.Forall₂ FieldTree.Means fields given)
      (oneTarget : given.filterMap Field.target? = [edge.target])
      (oneKind : given.filterMap Field.kindName? = [edge.kindName]) :
      Means (.object fields) edge
  | pair {target kindName : List UInt8} {edge : WrittenEdge N}
      (isTarget : Spells (SpelledId.Target · edge.target ·) target)
      (isKind : Names kindName edge.kindName) : Means (.pair target kindName) edge

/-- Whether a token is the key of a unit. -/
def Keys (token : List UInt8) (unit : N) : Prop :=
  ∃ body, token = 0x22 :: body ∧ Spells (SpelledId.Key · unit ·) body

structure EntryTree.Means (tree : EntryTree) (entry : Entry N) : Prop where
  key : Keys tree.key entry.1
  edges : List.Forall₂ EdgeTree.Means tree.edges entry.2

def Document.Means (document : List EntryTree) (entries : List (Entry N)) : Prop :=
  List.Forall₂ EntryTree.Means document entries

/-! ### Tokens and bytes -/

theorem exists_names {bytes rest : List UInt8} {text : String}
    (body : StringBody bytes (Utf8.encode text) rest) :
    ∃ token, 0x22 :: bytes = token ++ rest ∧ Names token text := by
  obtain ⟨text, rfl, spells⟩ := stringBody_local _ _ _ body
  exact ⟨0x22 :: text, rfl, text, rfl, spells⟩

/-- A text between quotes is a token that names it. -/
theorem exists_names_of_textToken {bytes rest : List UInt8} {text : String}
    (quoted : TextToken bytes text rest) :
    ∃ token, Blanks bytes (token ++ rest) ∧ Names token text := by
  obtain ⟨body, quote, spelled⟩ := quoted
  obtain ⟨token, split, named⟩ := exists_names spelled
  exact ⟨token, split ▸ quote, named⟩

theorem Names.textToken {token bytes rest : List UInt8} {text : String} (named : Names token text)
    (blanks : Blanks bytes (token ++ rest)) : TextToken bytes text rest := by
  obtain ⟨body, rfl, spells⟩ := named
  exact ⟨body ++ rest, blanks, spells rest⟩

theorem FieldTree.tokens_ne_nil (tree : FieldTree) : tree.tokens ≠ [] := List.cons_ne_nil _ _

theorem EdgeTree.tokens_ne_nil (tree : EdgeTree) : tree.tokens ≠ [] := by
  cases tree <;> exact List.cons_ne_nil _ _

theorem EntryTree.tokens_ne_nil (tree : EntryTree) : tree.tokens ≠ [] := List.cons_ne_nil _ _

/-- The tokens of a field make one, whatever the blanks between them. -/
theorem field_of_tree {tree : FieldTree} {field : Field N} (meant : tree.Means field)
    {bytes rest : List UInt8} (spaced : Spaced tree.tokens bytes rest) :
    ∃ start, Blanks bytes start ∧ FieldForm start field rest := by
  obtain ⟨colon, blanks, onward⟩ := spaced_cons_iff.mp spaced
  obtain ⟨value, isColon, behind⟩ := spaced_cons_iff.mp onward
  cases meant with
  | target named target =>
      obtain ⟨body, rfl, spells⟩ := named
      exact ⟨_, blanks,
        .target (spells colon) isColon (spaced_singleton_iff.mp behind) (target rest)⟩
  | kindName named kindName =>
      obtain ⟨body, rfl, spells⟩ := named
      exact ⟨_, blanks,
        .kindName (spells colon) isColon (kindName.textToken (spaced_singleton_iff.mp behind))⟩
  | other isOther named any =>
      obtain ⟨body, rfl, spells⟩ := named
      obtain ⟨start, ahead, form⟩ := form_of_shape any behind
      exact ⟨_, blanks, .other isOther (spells colon) isColon ahead form⟩

/-- The tokens of an edge make one, whatever the blanks between them. -/
theorem edge_of_tree {tree : EdgeTree} {edge : WrittenEdge N} (meant : tree.Means edge)
    {bytes rest : List UInt8} (spaced : Spaced tree.tokens bytes rest) :
    ∃ start, Blanks bytes start ∧ EdgeForm start edge rest := by
  cases meant with
  | object meant oneTarget oneKind =>
      obtain ⟨inside, blanks, onward⟩ := spaced_cons_iff.mp spaced
      have listed := listed_of_separated FieldForm meant onward
        fun _ _ meant _ _ => field_of_tree meant
      exact ⟨_, blanks, .object listed oneTarget oneKind⟩
  | pair isTarget isKind =>
      obtain ⟨inside, blanks, atTarget⟩ := spaced_cons_iff.mp spaced
      obtain ⟨comma, ahead, atComma⟩ := spaced_cons_iff.mp atTarget
      obtain ⟨second, isComma, atKind⟩ := spaced_cons_iff.mp atComma
      obtain ⟨close, behind, atEnd⟩ := spaced_cons_iff.mp atKind
      exact ⟨_, blanks, .pair ahead (isTarget comma) isComma (isKind.textToken behind)
        (spaced_singleton_iff.mp atEnd)⟩

/-- The tokens of an entry make one, whatever the blanks between them. -/
theorem entry_of_tree {tree : EntryTree} {entry : Entry N} (meant : tree.Means entry)
    {bytes rest : List UInt8} (spaced : Spaced tree.tokens bytes rest) :
    ∃ start, Blanks bytes start ∧ EntryForm start entry rest := by
  obtain ⟨key, edges⟩ := tree
  obtain ⟨body, rfl, spells⟩ := meant.key
  obtain ⟨colon, blanks, atColon⟩ := spaced_cons_iff.mp spaced
  obtain ⟨list, isColon, atList⟩ := spaced_cons_iff.mp atColon
  obtain ⟨inside, opened, onward⟩ := spaced_cons_iff.mp atList
  exact ⟨_, blanks, .intro (spells colon) isColon opened
    (listed_of_separated EdgeForm meant.edges onward fun _ _ meant _ _ => edge_of_tree meant)⟩

variable [TokenId N]

/-- A field consists of the tokens of a tree that means it. -/
theorem exists_fieldTree {bytes rest : List UInt8} {field : Field N}
    (form : FieldForm bytes field rest) :
    ∃ tree : FieldTree, tree.Means field ∧ Spaced tree.tokens bytes rest := by
  cases form with
  | target name isColon blanks target =>
      obtain ⟨token, split, named⟩ := exists_names name
      obtain ⟨text, rfl, spells⟩ := TokenId.target_local _ _ _ target
      exact ⟨⟨token, [text]⟩, .target named spells,
        .next (split ▸ .none _) (.next isColon (.next blanks (.done _)))⟩
  | kindName name isColon kindName =>
      obtain ⟨token, split, named⟩ := exists_names name
      obtain ⟨text, blanks, kindNamed⟩ := exists_names_of_textToken kindName
      exact ⟨⟨token, [text]⟩, .kindName named kindNamed,
        .next (split ▸ .none _) (.next isColon (.next blanks (.done _)))⟩
  | other isOther name isColon blanks any =>
      obtain ⟨token, split, named⟩ := exists_names name
      obtain ⟨value, shape, spaced⟩ := exists_shape any
      exact ⟨⟨token, value⟩, .other isOther named shape,
        .next (split ▸ .none _) (.next isColon (spaced.of_blanks shape.ne_nil blanks))⟩

/-- An edge consists of the tokens of a tree that means it. -/
theorem exists_edgeTree {bytes rest : List UInt8} {edge : WrittenEdge N}
    (form : EdgeForm bytes edge rest) :
    ∃ tree : EdgeTree, tree.Means edge ∧ Spaced tree.tokens bytes rest := by
  cases form with
  | object listed oneTarget oneKind =>
      obtain ⟨fields, meant, spaced⟩ :=
        exists_separated_of_listed listed FieldTree.tokens_ne_nil fun _ _ _ => exists_fieldTree
      exact ⟨.object fields, .object meant oneTarget oneKind, .next (.none _) spaced⟩
  | pair blanks target isComma kindName closed =>
      obtain ⟨text, rfl, spells⟩ := TokenId.target_local _ _ _ target
      obtain ⟨kind, behind, kindNamed⟩ := exists_names_of_textToken kindName
      exact ⟨.pair text kind, .pair spells kindNamed, .next (.none _) (.next blanks
        (.next isComma (.next behind (spaced_singleton_iff.mpr closed))))⟩

/-- An entry consists of the tokens of a tree that means it. -/
theorem exists_entryTree {bytes rest : List UInt8} {entry : Entry N}
    (form : EntryForm bytes entry rest) :
    ∃ tree : EntryTree, tree.Means entry ∧ Spaced tree.tokens bytes rest := by
  cases form with
  | intro key isColon opened listed =>
      obtain ⟨text, rfl, spells⟩ := TokenId.key_local _ _ _ key
      obtain ⟨edges, meant, spaced⟩ :=
        exists_separated_of_listed listed EdgeTree.tokens_ne_nil fun _ _ _ => exists_edgeTree
      exact ⟨⟨0x22 :: text, edges⟩, ⟨⟨text, rfl, spells⟩, meant⟩,
        .next (.none _) (.next isColon (.next opened spaced))⟩

/-- A text is a snapshot just when it has the tokens of a tree, and its entries are those
that the tree means. -/
theorem documentForm_iff_tree {bytes : List UInt8} {entries : List (Entry N)} :
    DocumentForm bytes entries ↔
      ∃ document, Document.Means document entries ∧ Document.Writes document bytes := by
  constructor
  · rintro ⟨opened, listed, blanks⟩
    obtain ⟨document, meant, spaced⟩ :=
      exists_separated_of_listed listed EntryTree.tokens_ne_nil fun _ _ _ => exists_entryTree
    exact ⟨document, meant, _, .next opened spaced, blanks⟩
  · rintro ⟨document, meant, rest, spaced, blanks⟩
    obtain ⟨inside, opened, onward⟩ := spaced_cons_iff.mp spaced
    have listed :=
      listed_of_separated EntryForm meant onward fun _ _ meant _ _ => entry_of_tree meant
    exact .intro opened listed blanks

end Snapshot

end BuildImpact
