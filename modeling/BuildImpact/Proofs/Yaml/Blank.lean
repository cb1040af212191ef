/-
Module: BuildImpact.Proofs.Yaml.Blank
Layer: Proofs
Purpose: A text of white space is no mapping.  YAML takes some of the white space of Unicode for
  words, but nothing that such a text holds makes a scalar the key of a mapping, so that its
  first token is a plain scalar or the end of what can be read.
Imports: BuildImpact.Text.Blank, BuildImpact.Yaml.Document
Trusted boundary: none
Main exports: Yaml.Cursor.IsBlank, Yaml.Opens, Yaml.Lexer.Wordy, Yaml.opens_tokensOf,
  Yaml.top_ne_mapping_of_isBlankText
Open obligations: none
-/
import BuildImpact.Text.Blank
import BuildImpact.Yaml.Document

namespace BuildImpact.Yaml

/-! ### What is left of the text -/

/-- Whether only white space is left. -/
def Cursor.IsBlank (cursor : Cursor) : Prop := ∀ char ∈ cursor.rest, Blank.isBlank char

namespace Cursor.IsBlank

variable {cursor : Cursor}

theorem skip (blank : cursor.IsBlank) (count : Nat) : (cursor.skip count).IsBlank :=
  fun char member => blank char (List.mem_of_mem_drop member)

theorem skipWhile (blank : cursor.IsBlank) (accepts : Char → Bool) :
    (cursor.skipWhile accepts).IsBlank :=
  blank.skip _

theorem skipBreak (blank : cursor.IsBlank) : cursor.skipBreak.IsBlank := by
  intro char member
  refine blank char ?_
  unfold Cursor.skipBreak at member
  split at member
  · rename_i rest same
    rw [same]
    exact List.mem_cons_of_mem _ (List.mem_cons_of_mem _ member)
  · rename_i first rest _ same
    rw [same]
    exact List.mem_cons_of_mem _ member
  · exact member

/-- What stands here is no visible character. -/
theorem next_ne (blank : cursor.IsBlank) {mark : Char} (visible : Blank.isBlank mark = false) :
    cursor.next ≠ some mark := by
  intro here
  rw [blank mark (List.mem_of_getElem? here)] at visible
  cases visible

theorem atMarker (blank : cursor.IsBlank) {mark : Char} (visible : Blank.isBlank mark = false) :
    cursor.atMarker mark = false := by
  have absent : (cursor.look 0 == some mark) = false := beq_false_of_ne (blank.next_ne visible)
  simp [Cursor.atMarker, absent]

theorem skipGap (blank : cursor.IsBlank) (inFlow : Bool) (fuel : Nat) (allowsKey : Bool) :
    (Lexer.skipGap inFlow fuel allowsKey cursor).2.IsBlank := by
  induction fuel generalizing allowsKey cursor with
  | zero => exact blank
  | succ fuel inductionHypothesis =>
      unfold Lexer.skipGap
      extract_lets marked spaced commented
      have ahead : commented.IsBlank := by
        have markedBlank : marked.IsBlank := by
          unfold marked
          split
          · exact blank.skip 1
          · exact blank
        have spacedBlank : spaced.IsBlank := markedBlank.skipWhile _
        unfold commented
        split
        · exact spacedBlank.skipWhile _
        · exact spacedBlank
      split
      · exact inductionHypothesis ahead.skipBreak _
      · exact ahead

theorem readGap (blank : cursor.IsBlank) {indent fuel : Nat} {gap last : Gap} {after : Cursor}
    (read : Yaml.readGap indent fuel gap cursor = some (last, after)) : after.IsBlank := by
  induction fuel generalizing gap cursor with
  | zero =>
      cases read
      exact blank
  | succ fuel inductionHypothesis =>
      unfold Yaml.readGap at read
      grind [IsBlank.skip, IsBlank.skipBreak]

theorem plainFrom (blank : cursor.IsBlank) {inFlow : Bool} {indent fuel : Nat}
    {gathered : List Char} {gap : Gap} {reading : Reading}
    (read : Yaml.plainFrom inFlow indent fuel gathered gap cursor = some reading) :
    reading.after.IsBlank := by
  induction fuel generalizing gathered gap cursor with
  | zero => cases read
  | succ fuel inductionHypothesis =>
      -- Wherever the scalar ends, it ends further on in the same text.
      unfold Yaml.plainFrom at read
      grind [IsBlank.skip, IsBlank.readGap]

end Cursor.IsBlank

/-! ### Tokens -/

/-- What the tokens of a text that is no mapping can begin with. -/
inductive Opens : TokenKind → Prop where
  | word (text : String) : Opens (.scalar text .plain)
  | textEnd : Opens .textEnd
  | unreadable : Opens .unreadable

namespace Lexer

/-- Whether only words have been met: no brackets and no blocks are open, the first token is a
plain scalar, and what is left is blank. -/
structure Wordy (lexer : Lexer) : Prop where
  blank : lexer.cursor.IsBlank
  outside : lexer.around = []
  margin : lexer.margin = 0
  margins : lexer.margins = []
  word : ∀ token ∈ lexer.tokens.toList.head?, ∃ text, token.kind = .scalar text .plain

variable {lexer after : Lexer}

theorem wordy_start {text : List Char} (blank : ∀ char ∈ text, Blank.isBlank char) :
    (start text).Wordy :=
  ⟨blank, rfl, rfl, rfl, by simp [start]⟩

namespace Wordy

/-- What could be a key, and where one may begin, makes no difference. -/
theorem keys (wordy : lexer.Wordy) (possible : Option PossibleKey) (allowsKey : Bool) :
    Wordy { lexer with possible := possible, allowsKey := allowsKey } :=
  ⟨wordy.blank, wordy.outside, wordy.margin, wordy.margins, wordy.word⟩

theorem moved (wordy : lexer.Wordy) {cursor : Cursor} (blank : cursor.IsBlank)
    (allowsKey : Bool) : Wordy { lexer with cursor := cursor, allowsKey := allowsKey } :=
  ⟨blank, wordy.outside, wordy.margin, wordy.margins, wordy.word⟩

theorem expireKeys (wordy : lexer.Wordy) (expired : lexer.expireKeys = some after) :
    after.Wordy := by
  simp only [Lexer.expireKeys, wordy.outside] at expired
  cases kept : expire lexer.cursor lexer.possible with
  | none => simp [kept] at expired
  | some possible =>
      simp only [kept, List.mapM_nil, Option.pure_def, Option.bind_eq_bind, Option.bind_some,
        Option.some.injEq] at expired
      rw [← expired]
      exact ⟨wordy.blank, rfl, wordy.margin, wordy.margins, wordy.word⟩

theorem forgetKey (wordy : lexer.Wordy) (forgotten : lexer.forgetKey = some after) :
    after.Wordy := by
  unfold Lexer.forgetKey at forgotten
  split at forgotten
  · cases forgotten
    exact wordy
  · split at forgotten
    · cases forgotten
    · cases forgotten
      exact wordy.keys none _

theorem markKey (wordy : lexer.Wordy) (marked : lexer.markKey = some after) : after.Wordy := by
  unfold Lexer.markKey at marked
  split at marked
  · obtain ⟨between, forgotten, same⟩ := Option.bind_eq_some_iff.mp marked
    obtain rfl := Option.some.inj same
    exact (wordy.forgetKey forgotten).keys _ _
  · cases marked
    exact wordy

/-- Outside of every block nothing ends at the margin. -/
theorem closeBlocks_eq (wordy : lexer.Wordy) {ends : Nat → Bool} (outermost : ends 0 = false) :
    lexer.closeBlocks ends = lexer := by
  obtain ⟨cursor, tokens, possible, around, margin, margins, allowsKey⟩ := lexer
  obtain ⟨-, rfl : around = [], rfl : margin = 0, rfl : margins = [], -⟩ := wordy
  simp [Lexer.closeBlocks, inFlow, outermost]

theorem advance (wordy : lexer.Wordy) {fuel : Nat} (advanced : lexer.advance fuel = some after) :
    after.Wordy := by
  simp only [Lexer.advance, Option.map_eq_some_iff] at advanced
  obtain ⟨ahead, expired, rfl⟩ := advanced
  have aheadWordy : ahead.Wordy :=
    (wordy.moved (wordy.blank.skipGap lexer.inFlow fuel lexer.allowsKey) _).expireKeys expired
  rw [aheadWordy.closeBlocks_eq (by simp)]
  exact aheadWordy

/-- A token that comes behind the others is the first one only if there is no other. -/
theorem add (wordy : lexer.Wordy) {kind : TokenKind} (start stop : Place) {token : Token}
    (first : token ∈ (lexer.add kind start stop).tokens.toList.head?) :
    (∃ text, token.kind = .scalar text .plain) ∨ token.kind = kind := by
  simp only [Lexer.add, Array.toList_push] at first
  cases listed : lexer.tokens.toList with
  | nil =>
      rw [listed] at first
      cases first
      exact .inr rfl
  | cons other others =>
      rw [listed] at first
      refine .inl (wordy.word token ?_)
      rwa [listed]

/-- The end of the text comes behind the words. -/
theorem opens_finish (wordy : lexer.Wordy) (finished : lexer.finish = some after)
    {token : Token} (first : token ∈ after.tokens.toList.head?) : Opens token.kind := by
  unfold Lexer.finish at finished
  extract_lets place below cursor ended at finished
  have blank : ended.cursor.IsBlank := wordy.blank
  have endedWordy : ended.Wordy := wordy.moved blank _
  have outermost : ended.closeBlocks (0 < ·) = ended :=
    endedWordy.closeBlocks_eq (decide_eq_false (Nat.lt_irrefl 0))
  simp only [closeDocument, outermost, Option.map_eq_some_iff] at finished
  obtain ⟨_, ⟨closed, forgotten, rfl⟩, rfl⟩ := finished
  have closedWordy := (endedWordy.forgetKey forgotten).keys closed.possible false
  rcases closedWordy.add below below first with ⟨text, word⟩ | textEnd
  · exact word ▸ .word text
  · exact textEnd ▸ .textEnd

theorem wordScalar (wordy : lexer.Wordy) (read : lexer.wordScalar .plain = some after) :
    after.Wordy := by
  obtain ⟨marked, mark, scalar⟩ := Option.bind_eq_some_iff.mp read
  have markedWordy := wordy.markKey mark
  obtain ⟨reading, plain, same⟩ := Option.bind_eq_some_iff.mp scalar
  obtain rfl := Option.some.inj same
  have blank : reading.after.IsBlank := markedWordy.blank.plainFrom plain
  refine ⟨blank, markedWordy.outside, markedWordy.margin, markedWordy.margins, ?_⟩
  intro token first
  rcases markedWordy.add _ _ first with word | word
  · exact word
  · exact ⟨_, word⟩

/-- A word is all that can follow. -/
theorem readToken (wordy : lexer.Wordy) {char : Char} (here : lexer.cursor.next = some char)
    (read : lexer.readToken char = some after) : after.Wordy := by
  have noMarker : ∀ mark, Blank.isBlank mark = false → lexer.cursor.atMarker mark = false :=
    fun mark visible => wordy.blank.atMarker visible
  have apart : ∀ mark, Blank.isBlank mark = false → (char == mark) = false := by
    intro mark visible
    refine beq_false_of_ne fun same => ?_
    exact wordy.blank.next_ne visible (same ▸ here)
  -- Every branch but the last two asks for a visible character.
  unfold Lexer.readToken at read
  simp (disch := decide) only [apart, noMarker, Bool.and_false, Bool.false_and,
    Bool.false_eq_true, if_false] at read
  split at read
  · exact wordy.wordScalar read
  · cases read

theorem opens_breakOff (wordy : lexer.Wordy) (settled : Nat) {token : Token}
    (first : token ∈ (lexer.breakOff settled).head?) : Opens token.kind := by
  unfold Lexer.breakOff at first
  cases settled with
  | zero =>
      cases first
      exact .unreadable
  | succ settled =>
      cases listed : lexer.tokens.toList with
      | nil =>
          rw [listed] at first
          cases first
          exact .unreadable
      | cons other others =>
          rw [listed] at first
          have among : token ∈ lexer.tokens.toList.head? := by
            rw [listed]
            exact first
          obtain ⟨text, word⟩ := wordy.word token among
          exact word ▸ .word text

theorem opens_run (wordy : lexer.Wordy) {fuel settled : Nat} {token : Token}
    (first : token ∈ (lexer.run fuel settled).head?) : Opens token.kind := by
  induction fuel generalizing lexer settled with
  | zero => exact wordy.opens_breakOff settled first
  | succ fuel inductionHypothesis =>
      unfold Lexer.run at first
      split at first
      · exact wordy.opens_breakOff settled first
      · rename_i ahead advanced
        have aheadWordy := wordy.advance advanced
        split at first
        · split at first
          · exact wordy.opens_breakOff settled first
          · rename_i done finished
            exact aheadWordy.opens_finish finished first
        · rename_i char here
          split at first
          · exact wordy.opens_breakOff settled first
          · rename_i after read
            exact inductionHypothesis (aheadWordy.readToken here read) first

end Wordy

end Lexer

/-- What the tokens of a blank text begin with. -/
theorem opens_tokensOf {text : String} (blank : Blank.isBlankText text) {token : Token}
    (first : token ∈ (tokensOf text).head?) : Opens token.kind := by
  have wordy : (Lexer.start text.toList).Wordy :=
    Lexer.wordy_start (List.all_eq_true.mp blank)
  unfold tokensOf at first
  extract_lets characters lexer at first
  split at first
  · exact wordy.opens_run first
  · exact wordy.opens_breakOff 0 first

/-! ### The document -/

/-- A node that stands alone is the top of its document. -/
theorem top_of_write {course : Course} (unmet : course.met = []) (node : Node)
    (trouble : Option Trouble) :
    ((course.write 0 none node).document trouble).top = some node := by
  simp [Course.write, Course.define, Course.document, Course.node, unmet]

section Tokens

variable {tokens : List Token}

theorem readDocument_of_scalar {text : String} {style : Style}
    (kind : (Course.start tokens).kind = .scalar text style) :
    readDocument tokens = .ok ((Course.start tokens).rest.write 0 none
      ⟨.scalar text style none, (Course.start tokens).place⟩) := by
  simp [readDocument, kind, readTop, readNode, readProperties]

theorem readDocument_of_textEnd (kind : (Course.start tokens).kind = .textEnd) :
    readDocument tokens = .ok ((Course.start tokens).write 0 none (emptyNode ⟨0, 0⟩)) := by
  simp [readDocument, kind]

theorem readDocument_of_unreadable (kind : (Course.start tokens).kind = .unreadable) :
    readDocument tokens = .error (.malformed, Course.start tokens) := by
  simp [readDocument, kind, readTop, readNode, readProperties, Course.fail]

/-- A document whose first token opens no collection has none on top. -/
theorem top_ne_mapping_of_opens (opens : ∀ token ∈ tokens.head?, Opens token.kind) {node : Node}
    (top : (Document.ofTokens tokens).top = some node) : node.content ≠ .mapping := by
  have start : Opens (Course.start tokens).kind := by
    cases tokens with
    | nil => exact .unreadable
    | cons token tokens => exact opens token rfl
  unfold Document.ofTokens at top
  generalize given : (Course.start tokens).kind = kind at start
  cases start with
  | word text =>
      rw [readDocument_of_scalar given] at top
      cases (top_of_write rfl _ _).symm.trans top
      simp
  | textEnd =>
      rw [readDocument_of_textEnd given] at top
      cases (top_of_write rfl _ _).symm.trans top
      simp [emptyNode]
  | unreadable =>
      rw [readDocument_of_unreadable given] at top
      cases top

end Tokens

/-- A blank text is no mapping. -/
theorem top_ne_mapping_of_isBlankText {text : String} (blank : Blank.isBlankText text)
    {node : Node} (top : (documentOf text).top = some node) : node.content ≠ .mapping :=
  top_ne_mapping_of_opens (fun _ first => opens_tokensOf blank first) top

end BuildImpact.Yaml
