/-
Module: BuildImpact.Proofs.Json.Tokens
Layer: Proofs
Purpose: JSON as a grammar over tokens.  What the grammar over bytes derives it derives from
  the bytes in front of the rest alone, so that they may stand in front of any other rest.
  Whatever the blanks between its tokens, a value of any depth is one by its tokens.
Imports: Mathlib.Data.List.Forall2, BuildImpact.Proofs.Json.Text
Trusted boundary: none
Main exports: Json.Spaced, Json.spaced_append_iff, Json.Spells, Json.Local, Json.Shape,
  Json.exists_shape, Json.form_of_shape, Json.separated, Json.exists_separated_of_listed,
  Json.listed_of_separated
Open obligations: none
-/
import Mathlib.Data.List.Forall2
import BuildImpact.Proofs.Json.Text

namespace BuildImpact.Json

/-! ### Tokens with blanks between them -/

/-- `Spaced tokens bytes rest`: the bytes are the tokens, with blanks in front of each as
there may be, and `rest` behind. -/
inductive Spaced : List (List UInt8) → List UInt8 → List UInt8 → Prop where
  | done (rest : List UInt8) : Spaced [] rest rest
  | next {token : List UInt8} {tokens : List (List UInt8)} {bytes middle rest : List UInt8}
      (blanks : Blanks bytes (token ++ middle)) (onward : Spaced tokens middle rest) :
      Spaced (token :: tokens) bytes rest

theorem spaced_append_iff {first second : List (List UInt8)} {bytes rest : List UInt8} :
    Spaced (first ++ second) bytes rest ↔
      ∃ middle, Spaced first bytes middle ∧ Spaced second middle rest := by
  induction first generalizing bytes with
  | nil =>
      constructor
      · exact fun spaced => ⟨bytes, .done bytes, spaced⟩
      · rintro ⟨middle, ⟨⟩, spaced⟩
        exact spaced
  | cons token first inductionHypothesis =>
      constructor
      · rintro (_ | ⟨blanks, onward⟩)
        obtain ⟨middle, front, back⟩ := inductionHypothesis.mp onward
        exact ⟨middle, .next blanks front, back⟩
      · rintro ⟨middle, _ | ⟨blanks, front⟩, back⟩
        exact .next blanks (inductionHypothesis.mpr ⟨middle, front, back⟩)

theorem spaced_singleton_iff {token bytes rest : List UInt8} :
    Spaced [token] bytes rest ↔ Blanks bytes (token ++ rest) := by
  constructor
  · rintro (_ | ⟨blanks, ⟨⟩⟩)
    exact blanks
  · exact fun blanks => .next blanks (.done rest)

theorem spaced_cons_iff {token : List UInt8} {tokens : List (List UInt8)}
    {bytes rest : List UInt8} : Spaced (token :: tokens) bytes rest ↔
      ∃ middle, Blanks bytes (token ++ middle) ∧ Spaced tokens middle rest := by
  constructor
  · rintro (_ | ⟨blanks, onward⟩)
    exact ⟨_, blanks, onward⟩
  · rintro ⟨middle, blanks, onward⟩
    exact .next blanks onward

/-! ### Texts apart from what follows -/

/-- Whether a text is derived whatever follows it. -/
def Spells (Derives : List UInt8 → List UInt8 → Prop) (text : List UInt8) : Prop :=
  ∀ rest, Derives (text ++ rest) rest

/-- Whether what follows a text does not bear on its derivation. -/
def Local (Derives : List UInt8 → List UInt8 → Prop) : Prop :=
  ∀ bytes rest, Derives bytes rest → ∃ text, bytes = text ++ rest ∧ Spells Derives text

theorem stringBody_local (meant : List UInt8) : Local (StringBody · meant ·) := by
  intro bytes rest body
  induction body with
  | close => exact ⟨[0x22], rfl, fun rest => .close rest⟩
  | plain visible noQuote noEscape _ inductionHypothesis =>
      obtain ⟨text, rfl, spells⟩ := inductionHypothesis
      exact ⟨_ :: text, rfl, fun rest => .plain visible noQuote noEscape (spells rest)⟩
  | short known _ inductionHypothesis =>
      obtain ⟨text, rfl, spells⟩ := inductionHypothesis
      exact ⟨_ :: _ :: text, rfl, fun rest => .short known (spells rest)⟩
  | point number _ inductionHypothesis =>
      obtain ⟨text, rfl, spells⟩ := inductionHypothesis
      exact ⟨_ :: _ :: _ :: _ :: _ :: _ :: text, rfl, fun rest => .point number (spells rest)⟩
  | pair first second leads trails joined _ inductionHypothesis =>
      obtain ⟨text, rfl, spells⟩ := inductionHypothesis
      exact ⟨_ :: _ :: _ :: _ :: _ :: _ :: _ :: _ :: _ :: _ :: _ :: _ :: text, rfl,
        fun rest => .pair first second leads trails joined (spells rest)⟩

theorem stringForm_local : Local StringForm := by
  intro bytes rest body
  induction body with
  | close => exact ⟨[0x22], rfl, fun rest => .close rest⟩
  | plain visible noQuote noEscape _ inductionHypothesis =>
      obtain ⟨text, rfl, spells⟩ := inductionHypothesis
      exact ⟨_ :: text, rfl, fun rest => .plain visible noQuote noEscape (spells rest)⟩
  | short known _ inductionHypothesis =>
      obtain ⟨text, rfl, spells⟩ := inductionHypothesis
      exact ⟨_ :: _ :: text, rfl, fun rest => .short known (spells rest)⟩
  | point digits _ inductionHypothesis =>
      obtain ⟨text, rfl, spells⟩ := inductionHypothesis
      exact ⟨_ :: _ :: _ :: _ :: _ :: _ :: text, rfl, fun rest => .point digits (spells rest)⟩

theorem Digits.spells {digits bytes rest : List UInt8} (behind : Digits digits bytes rest) :
    bytes = digits ++ rest ∧ Spells (Digits digits) digits :=
  ⟨behind.split, fun _ => ⟨rfl, behind.some, behind.decimal⟩⟩

theorem Whole.spells {digits bytes rest : List UInt8} (whole : Whole digits bytes rest) :
    bytes = digits ++ rest ∧ Spells (Whole digits) digits :=
  ⟨whole.split, fun rest => ⟨whole.toDigits.spells.2 rest, whole.zeroAlone⟩⟩

theorem integer_local (value : Int) : Local (Integer · value ·) := by
  intro bytes rest integer
  cases integer with
  | natural whole =>
      obtain ⟨rfl, spells⟩ := whole.spells
      exact ⟨_, rfl, fun rest => .natural (spells rest)⟩
  | negative whole positive =>
      obtain ⟨rfl, spells⟩ := whole.spells
      exact ⟨_ :: _, rfl, fun rest => .negative (spells rest) positive⟩

namespace Number

theorem fraction_local : Local Fraction := by
  intro bytes rest fraction
  cases fraction with
  | none => exact ⟨[], rfl, fun rest => .none rest⟩
  | digits behind =>
      obtain ⟨rfl, spells⟩ := behind.spells
      exact ⟨_ :: _, rfl, fun rest => .digits (spells rest)⟩

theorem exponent_local : Local Exponent := by
  intro bytes rest exponent
  cases exponent with
  | none => exact ⟨[], rfl, fun rest => .none rest⟩
  | unsigned marks behind =>
      obtain ⟨rfl, spells⟩ := behind.spells
      exact ⟨_ :: _, rfl, fun rest => .unsigned marks (spells rest)⟩
  | signed marks signs behind =>
      obtain ⟨rfl, spells⟩ := behind.spells
      exact ⟨_ :: _ :: _, rfl, fun rest => .signed marks signs (spells rest)⟩

theorem unsigned_local : Local Unsigned := by
  intro bytes rest unsigned
  cases unsigned with
  | @intro digits _ middle later _ whole fraction exponent =>
      obtain ⟨power, rfl, spellsPower⟩ := exponent_local _ _ exponent
      obtain ⟨decimals, rfl, spellsDecimals⟩ := fraction_local _ _ fraction
      obtain ⟨rfl, spellsWhole⟩ := whole.spells
      refine ⟨digits ++ (decimals ++ power), by simp only [List.append_assoc], fun rest => ?_⟩
      simp only [List.append_assoc]
      exact .intro (spellsWhole _) (spellsDecimals _) (spellsPower rest)

theorem form_local : Local Form := by
  intro bytes rest form
  cases form with
  | positive unsigned =>
      obtain ⟨text, rfl, spells⟩ := unsigned_local _ _ unsigned
      exact ⟨text, rfl, fun rest => .positive (spells rest)⟩
  | negative unsigned =>
      obtain ⟨text, rfl, spells⟩ := unsigned_local _ _ unsigned
      exact ⟨_ :: text, rfl, fun rest => .negative (spells rest)⟩

end Number

/-! ### Values by their tokens -/

/-- The tokens of a value, or of a part of one, of which only the form is asked. -/
inductive Shape : Part → List (List UInt8) → Prop where
  | literal {letters : List UInt8} (known : letters ∈ literals) : Shape .value [letters]
  | number {text : List UInt8} (number : Spells Number.Form text) : Shape .value [text]
  | string {text : List UInt8} (body : Spells StringForm text) : Shape .value [0x22 :: text]
  | bracketed {bracket : Bracket} {tokens : List (List UInt8)}
      (inside : Shape (.inside bracket) tokens) : Shape .value ([bracket.opener] :: tokens)
  | empty (bracket : Bracket) : Shape (.inside bracket) [[bracket.closer]]
  | items {bracket : Bracket} {item tokens : List (List UInt8)}
      (first : Shape (.item bracket) item) (others : Shape (.further bracket) tokens) :
      Shape (.inside bracket) (item ++ tokens)
  | close (bracket : Bracket) : Shape (.further bracket) [[bracket.closer]]
  | comma {bracket : Bracket} {item tokens : List (List UInt8)}
      (next : Shape (.item bracket) item) (others : Shape (.further bracket) tokens) :
      Shape (.further bracket) ([0x2c] :: (item ++ tokens))
  | element {tokens : List (List UInt8)} (value : Shape .value tokens) :
      Shape (.item .list) tokens
  | member {key : List UInt8} {tokens : List (List UInt8)} (name : Spells StringForm key)
      (value : Shape .value tokens) : Shape (.item .object) ((0x22 :: key) :: [0x3a] :: tokens)

/-- There may be more blanks in front of the first token. -/
theorem Spaced.of_blanks {tokens : List (List UInt8)} (some : tokens ≠ [])
    {bytes start rest : List UInt8} (blanks : Blanks bytes start)
    (spaced : Spaced tokens start rest) : Spaced tokens bytes rest := by
  cases spaced with
  | done => exact absurd rfl some
  | next inner onward => exact .next (blanks.trans inner) onward

theorem Shape.ne_nil {part : Part} {tokens : List (List UInt8)} (shape : Shape part tokens) :
    tokens ≠ [] := by
  induction shape with
  | items _ _ inductionHypothesis => exact List.append_ne_nil_of_left_ne_nil inductionHypothesis _
  | element _ inductionHypothesis => exact inductionHypothesis
  | _ => exact List.cons_ne_nil _ _

/-- What has the form of a value consists of its tokens. -/
theorem exists_shape {part : Part} {bytes rest : List UInt8} (form : Form part bytes rest) :
    ∃ tokens, Shape part tokens ∧ Spaced tokens bytes rest := by
  induction form with
  | literal rest known => exact ⟨_, .literal known, .next (.none _) (.done rest)⟩
  | number number =>
      obtain ⟨text, rfl, spells⟩ := Number.form_local _ _ number
      exact ⟨_, .number spells, .next (.none _) (.done _)⟩
  | string body =>
      obtain ⟨text, rfl, spells⟩ := stringForm_local _ _ body
      exact ⟨_, .string spells, .next (.none _) (.done _)⟩
  | bracketed _ inductionHypothesis =>
      obtain ⟨tokens, shape, spaced⟩ := inductionHypothesis
      exact ⟨_, .bracketed shape, .next (.none _) spaced⟩
  | empty closed => exact ⟨_, .empty _, .next closed (.done _)⟩
  | items _ _ firstHypothesis othersHypothesis =>
      obtain ⟨item, itemShape, itemSpaced⟩ := firstHypothesis
      obtain ⟨tokens, shape, spaced⟩ := othersHypothesis
      exact ⟨_, .items itemShape shape, spaced_append_iff.mpr ⟨_, itemSpaced, spaced⟩⟩
  | close closed => exact ⟨_, .close _, .next closed (.done _)⟩
  | comma isComma _ _ nextHypothesis othersHypothesis =>
      obtain ⟨item, itemShape, itemSpaced⟩ := nextHypothesis
      obtain ⟨tokens, shape, spaced⟩ := othersHypothesis
      exact ⟨_, .comma itemShape shape,
        .next isComma (spaced_append_iff.mpr ⟨_, itemSpaced, spaced⟩)⟩
  | element blanks _ inductionHypothesis =>
      obtain ⟨tokens, shape, spaced⟩ := inductionHypothesis
      exact ⟨tokens, .element shape, spaced.of_blanks shape.ne_nil blanks⟩
  | member quote key colon blanks _ inductionHypothesis =>
      obtain ⟨tokens, shape, spaced⟩ := inductionHypothesis
      obtain ⟨text, rfl, spells⟩ := stringForm_local _ _ key
      exact ⟨_, .member spells shape,
        .next quote (.next colon (spaced.of_blanks shape.ne_nil blanks))⟩

/-- Only in front of a value itself the form has no blanks. -/
theorem Form.of_blanks {part : Part} {bytes start rest : List UInt8}
    (form : Form part start rest) (inner : part ≠ .value) (blanks : Blanks bytes start) :
    Form part bytes rest := by
  induction form generalizing bytes with
  | literal | number | string | bracketed => exact absurd rfl inner
  | empty closed => exact .empty (blanks.trans closed)
  | items _ others firstHypothesis => exact .items (firstHypothesis nofun blanks) others
  | close closed => exact .close (blanks.trans closed)
  | comma isComma next others => exact .comma (blanks.trans isComma) next others
  | element behind value => exact .element (blanks.trans behind) value
  | member quote key colon behind value => exact .member (blanks.trans quote) key colon behind value

/-- The tokens of a value make one, whatever the blanks between them. -/
theorem form_of_shape {part : Part} {tokens : List (List UInt8)} (shape : Shape part tokens)
    {bytes rest : List UInt8} (spaced : Spaced tokens bytes rest) :
    ∃ start, Blanks bytes start ∧ Form part start rest := by
  induction shape generalizing bytes rest with
  | literal known =>
      exact ⟨_, spaced_singleton_iff.mp spaced, .literal rest known⟩
  | number spells =>
      exact ⟨_, spaced_singleton_iff.mp spaced, .number (spells rest)⟩
  | string spells =>
      exact ⟨_, spaced_singleton_iff.mp spaced, .string (spells rest)⟩
  | bracketed _ inductionHypothesis =>
      obtain ⟨middle, blanks, onward⟩ := spaced_cons_iff.mp spaced
      obtain ⟨start, behind, inside⟩ := inductionHypothesis onward
      exact ⟨_, blanks, .bracketed (inside.of_blanks nofun behind)⟩
  | empty bracket => exact ⟨bytes, .none bytes, .empty (spaced_singleton_iff.mp spaced)⟩
  | items _ _ firstHypothesis othersHypothesis =>
      obtain ⟨middle, front, back⟩ := spaced_append_iff.mp spaced
      obtain ⟨start, blanks, first⟩ := firstHypothesis front
      obtain ⟨next, behind, others⟩ := othersHypothesis back
      exact ⟨start, blanks, .items first (others.of_blanks nofun behind)⟩
  | close bracket => exact ⟨bytes, .none bytes, .close (spaced_singleton_iff.mp spaced)⟩
  | comma _ _ nextHypothesis othersHypothesis =>
      obtain ⟨after, isComma, onward⟩ := spaced_cons_iff.mp spaced
      obtain ⟨middle, front, back⟩ := spaced_append_iff.mp onward
      obtain ⟨start, blanks, item⟩ := nextHypothesis front
      obtain ⟨next, behind, others⟩ := othersHypothesis back
      exact ⟨bytes, .none bytes,
        .comma isComma (item.of_blanks nofun blanks) (others.of_blanks nofun behind)⟩
  | element _ inductionHypothesis =>
      obtain ⟨start, blanks, value⟩ := inductionHypothesis spaced
      exact ⟨bytes, .none bytes, .element blanks value⟩
  | member spells _ inductionHypothesis =>
      obtain ⟨after, quote, onward⟩ := spaced_cons_iff.mp spaced
      obtain ⟨middle, isColon, back⟩ := spaced_cons_iff.mp onward
      obtain ⟨start, blanks, value⟩ := inductionHypothesis back
      exact ⟨bytes, .none bytes, .member quote (spells after) isColon blanks value⟩

/-! ### Lists of items by their tokens -/

/-- The tokens of items with commas between them, up to and with the closing one.  The first
component says whether no item stands before. -/
def separated (closer : UInt8) : Bool → List (List (List UInt8)) → List (List UInt8)
  | _, [] => [[closer]]
  | true, item :: items => item ++ separated closer false items
  | false, item :: items => [0x2c] :: (item ++ separated closer false items)

variable {α Tree : Type} {Item : List UInt8 → α → List UInt8 → Prop} {Means : Tree → α → Prop}
  {tokens : Tree → List (List UInt8)} {closer : UInt8}

/-- Listed items consist of tokens if each item does. -/
theorem exists_separated_of_listed {isFirst : Bool} {bytes rest : List UInt8} {values : List α}
    (listed : Listed Item closer isFirst bytes values rest) (some : ∀ tree, tokens tree ≠ [])
    (itemTokens : ∀ bytes value rest, Item bytes value rest →
      ∃ tree, Means tree value ∧ Spaced (tokens tree) bytes rest) :
    ∃ trees, List.Forall₂ Means trees values ∧
      Spaced (separated closer isFirst (trees.map tokens)) bytes rest := by
  induction listed with
  | close closed =>
      refine ⟨[], .nil, ?_⟩
      exact spaced_singleton_iff.mpr closed
  | @item isFirst _ _ _ _ _ _ comma first others inductionHypothesis =>
      obtain ⟨tree, meant, item⟩ := itemTokens _ _ _ first
      obtain ⟨trees, meantAll, onward⟩ := inductionHypothesis
      refine ⟨tree :: trees, .cons meant meantAll, ?_⟩
      cases isFirst with
      | true => exact spaced_append_iff.mpr ⟨_, item.of_blanks (some tree) comma, onward⟩
      | false =>
          obtain ⟨after, isComma, blanks⟩ := comma
          exact .next isComma (spaced_append_iff.mpr ⟨_, item.of_blanks (some tree) blanks, onward⟩)

/-- Tokens with commas between them are listed items if those of each item make one. -/
theorem listed_of_separated (Item : List UInt8 → α → List UInt8 → Prop) {trees : List Tree}
    {values : List α} (meant : List.Forall₂ Means trees values) {isFirst : Bool}
    {bytes rest : List UInt8}
    (spaced : Spaced (separated closer isFirst (trees.map tokens)) bytes rest)
    (makesItem : ∀ tree value, Means tree value → ∀ bytes rest,
      Spaced (tokens tree) bytes rest → ∃ start, Blanks bytes start ∧ Item start value rest) :
    Listed Item closer isFirst bytes values rest := by
  induction meant generalizing isFirst bytes with
  | nil =>
      rw [List.map_nil, separated] at spaced
      exact .close (spaced_singleton_iff.mp spaced)
  | cons first _ inductionHypothesis =>
      cases isFirst with
      | true =>
          obtain ⟨middle, item, onward⟩ := spaced_append_iff.mp spaced
          obtain ⟨start, blanks, value⟩ := makesItem _ _ first _ _ item
          exact .item blanks value (inductionHypothesis onward)
      | false =>
          obtain ⟨after, isComma, behind⟩ := spaced_cons_iff.mp spaced
          obtain ⟨middle, item, onward⟩ := spaced_append_iff.mp behind
          obtain ⟨start, blanks, value⟩ := makesItem _ _ first _ _ item
          exact .item ⟨after, isComma, blanks⟩ value (inductionHypothesis onward)

end BuildImpact.Json
