/-
Module: BuildImpact.Proofs.Json.Skip
Layer: Proofs
Purpose: A value is passed over exactly when it has the form of one.  While it is passed
  over, what is left of the text owes an end to each bracket that is open; the machine
  stops when nothing is owed.
Imports: BuildImpact.Proofs.Json.Number
Trusted boundary: none
Main exports: Json.Owed, Json.owed_of_skipFrom, Json.Form.skipFrom_eq, Json.value_of_skipValue,
  Json.skipValue_of_value
Open obligations: none
-/
import BuildImpact.Proofs.Json.Number

namespace BuildImpact.Json

/-! ### What can follow a number -/

/-- A number can end in front of a comma and in front of a closing byte. -/
theorem Token.ends {symbol : UInt8} (mark : symbol ∈ [0x2c, 0x5d, 0x7d]) {bytes rest : List UInt8}
    (token : Token symbol bytes rest) : Ends bytes := by
  have mild : ∀ byte ∈ [0x2c, 0x5d, 0x7d, 0x20, 0x09, 0x0a, 0x0d],
      isDigit byte = false ∧ byte ∉ [0x2e, 0x65, 0x45] := by decide +kernel
  intro byte head
  cases token with
  | none =>
      cases head
      exact mild symbol (List.mem_append_left [0x20, 0x09, 0x0a, 0x0d] mark)
  | more blank =>
      cases head
      exact mild byte (List.mem_append_right [0x2c, 0x5d, 0x7d] blank)

theorem Bracket.closer_mem (bracket : Bracket) : bracket.closer ∈ [0x2c, 0x5d, 0x7d] := by
  cases bracket <;> decide

theorem Bracket.isBlank_closer (bracket : Bracket) : isBlank bracket.closer = false := by
  cases bracket <;> decide

/-- A number can end where the items of a bracket go on. -/
theorem Form.ends {bracket : Bracket} {bytes rest : List UInt8}
    (further : Form (.further bracket) bytes rest) : Ends bytes := by
  cases further with
  | close closed => exact closed.ends bracket.closer_mem
  | comma comma => exact comma.ends (by decide)

/-! ### Values without brackets, and keys -/

theorem value_of_skipAtom {first : UInt8} {bytes rest : List UInt8}
    (taken : skipAtom first bytes = .ok rest) : Form .value (first :: bytes) rest := by
  have literal : ∀ {tail : List UInt8}, first :: tail ∈ literals →
      readLiteral tail bytes = .ok rest → Form .value (first :: bytes) rest := by
    intro tail known read
    rw [readLiteral_eq_ok_iff.mp read]
    exact .literal rest known
  unfold skipAtom at taken
  split at taken
  · rename_i same
    exact literal (by rw [eq_of_beq same]; decide) taken
  split at taken
  · rename_i same
    exact literal (by rw [eq_of_beq same]; decide) taken
  split at taken
  · rename_i same
    exact literal (by rw [eq_of_beq same]; decide) taken
  split at taken
  · rename_i same
    rw [eq_of_beq same]
    exact .number (.negative (Number.unsigned_of_skip taken))
  split at taken
  · exact .number (.positive (Number.unsigned_of_skip taken))
  split at taken
  · rename_i same
    rw [eq_of_beq same]
    exact .string (skipString_eq_ok_iff.mp taken)
  · cases taken

/-- A byte that is no digit is not the first one of a run of digits. -/
theorem beq_eq_false_of_isDigit {first byte : UInt8} (digit : isDigit first = true)
    (other : isDigit byte = false) : (first == byte) = false := by
  rw [beq_eq_false_iff_ne]
  rintro rfl
  rw [digit] at other
  cases other

theorem skipAtom_of_isDigit {first : UInt8} (digit : isDigit first = true) (bytes : List UInt8) :
    skipAtom first bytes = Number.skip (first :: bytes) := by
  have letter : ∀ byte ∈ [0x6e, 0x74, 0x66, 0x2d], (first == byte) = false := by
    have others : ∀ byte ∈ [0x6e, 0x74, 0x66, 0x2d], isDigit byte = false := by decide +kernel
    exact fun byte mem => beq_eq_false_of_isDigit digit (others byte mem)
  simp only [skipAtom, letter 0x6e (by decide), letter 0x74 (by decide), letter 0x66 (by decide),
    letter 0x2d (by decide), digit, Bool.false_eq_true, if_false, if_true]

theorem skipKey_eq_ok_iff {bytes rest : List UInt8} :
    skipKey bytes = .ok rest ↔
      ∃ body colon, Token 0x22 bytes body ∧ StringForm body colon ∧ Token 0x3a colon rest := by
  constructor
  · intro taken
    unfold skipKey at taken
    split at taken
    · cases taken
    rename_i first body quote
    split at taken
    · rename_i isQuote
      cases eq_of_beq isQuote
      split at taken
      · cases taken
      rename_i left passed
      split at taken
      · cases taken
      rename_i colon after split
      split at taken
      · rename_i isColon
        cases eq_of_beq isColon
        cases taken
        exact ⟨body, left, token_of_skipBlanks quote, skipString_eq_ok_iff.mp passed,
          token_of_skipBlanks split⟩
      · cases taken
    · cases taken
  · rintro ⟨body, colon, quote, form, isColon⟩
    simp [skipKey, quote.skipBlanks_eq (by decide), skipString_eq_ok_iff.mpr form,
      isColon.skipBlanks_eq (by decide)]

/-! ### What is passed over has the form of a value -/

/-- What is owed to the brackets that are open when a value has ended, the innermost first. -/
inductive Closed : List Bracket → List UInt8 → List UInt8 → Prop where
  | none (rest : List UInt8) : Closed [] rest rest
  | bracket {bracket : Bracket} {outer : List Bracket} {bytes middle rest : List UInt8}
      (further : Form (.further bracket) bytes middle) (others : Closed outer middle rest) :
      Closed (bracket :: outer) bytes rest

/-- What the text owes in each phase, up to the end of the outermost bracket. -/
inductive Owed : Phase → List Bracket → List UInt8 → List UInt8 → Prop where
  | value {brackets : List Bracket} {bytes start middle rest : List UInt8}
      (blanks : Blanks bytes start) (value : Form .value start middle)
      (closed : Closed brackets middle rest) : Owed .value brackets bytes rest
  | opened {bracket : Bracket} {outer : List Bracket} {bytes middle rest : List UInt8}
      (inside : Form (.inside bracket) bytes middle) (closed : Closed outer middle rest) :
      Owed .opened (bracket :: outer) bytes rest
  /-- Without brackets nothing is owed. -/
  | outside (rest : List UInt8) : Owed .opened [] rest rest
  | ended {brackets : List Bracket} {bytes rest : List UInt8}
      (closed : Closed brackets bytes rest) : Owed .ended brackets bytes rest

theorem Owed.bracketed {bracket : Bracket} {brackets : List Bracket} {first : UInt8}
    {bytes after rest : List UInt8} (isOpener : (first == bracket.opener) = true)
    (split : skipBlanks bytes = first :: after)
    (owed : Owed .opened (bracket :: brackets) after rest) : Owed .value brackets bytes rest := by
  cases eq_of_beq isOpener
  cases owed with
  | opened inside closed => exact .value (token_of_skipBlanks split) (.bracketed inside) closed

/-- A value behind an opened bracket is an item, and what it owes to its bracket follows. -/
theorem Owed.item {outer : List Bracket} {bytes rest : List UInt8}
    (owed : Owed .value (.list :: outer) bytes rest) :
    ∃ middle later, Form (.item .list) bytes middle ∧ Form (.further .list) middle later ∧
      Closed outer later rest := by
  cases owed with
  | value blanks value closed =>
      cases closed with
      | bracket further others => exact ⟨_, _, .element blanks value, further, others⟩

theorem Owed.member {outer : List Bracket} {bytes after rest : List UInt8}
    (key : skipKey bytes = .ok after) (owed : Owed .value (.object :: outer) after rest) :
    ∃ middle later, Form (.item .object) bytes middle ∧ Form (.further .object) middle later ∧
      Closed outer later rest := by
  obtain ⟨body, colon, quote, form, isColon⟩ := skipKey_eq_ok_iff.mp key
  cases owed with
  | value blanks value closed =>
      cases closed with
      | bracket further others =>
          exact ⟨_, _, .member quote form isColon blanks value, further, others⟩

/-- What is passed over settles all that is owed. -/
theorem owed_of_skipFrom {phase : Phase} {brackets : List Bracket} {bytes rest : List UInt8}
    (taken : skipFrom phase brackets bytes = .ok rest) : Owed phase brackets bytes rest := by
  fun_induction skipFrom phase brackets bytes with
  | case1 => cases taken
  | case2 brackets bytes first after split isList inductionHypothesis =>
      exact Owed.bracketed (show (first == Bracket.list.opener) = true from isList) split
        (inductionHypothesis taken)
  | case3 brackets bytes first after split _ isObject inductionHypothesis =>
      exact Owed.bracketed (show (first == Bracket.object.opener) = true from isObject) split
        (inductionHypothesis taken)
  | case4 => cases taken
  | case5 brackets bytes first after split _ _ left atom inductionHypothesis =>
      cases inductionHypothesis taken with
      | ended closed =>
          exact .value (token_of_skipBlanks split) (value_of_skipAtom atom) closed
  | case6 phase bytes notValue =>
      cases taken
      cases phase with
      | value => exact absurd rfl notValue
      | opened => exact .outside _
      | ended => exact .ended (.none _)
  | case7 => cases taken
  | case8 bytes bracket outer first after split isCloser inductionHypothesis =>
      cases eq_of_beq isCloser
      cases inductionHypothesis taken with
      | ended closed => exact .opened (.empty (token_of_skipBlanks split)) closed
  | case9 bytes outer first after split _ inductionHypothesis =>
      obtain ⟨_, _, item, further, closed⟩ := (inductionHypothesis taken).item
      exact .opened (.items item further) closed
  | case10 => cases taken
  | case11 bytes outer first after split left key _ inductionHypothesis =>
      obtain ⟨_, _, item, further, closed⟩ := Owed.member key (inductionHypothesis taken)
      exact .opened (.items item further) closed
  | case12 => cases taken
  | case13 bytes bracket outer first after split isCloser inductionHypothesis =>
      cases eq_of_beq isCloser
      cases inductionHypothesis taken with
      | ended closed => exact .ended (.bracket (.close (token_of_skipBlanks split)) closed)
  | case14 bytes outer first after split isComma _ inductionHypothesis =>
      cases eq_of_beq isComma
      obtain ⟨_, _, item, further, closed⟩ := (inductionHypothesis taken).item
      exact .ended (.bracket (.comma (token_of_skipBlanks split) item further) closed)
  | case15 => cases taken
  | case16 bytes outer first after split isComma left key _ inductionHypothesis =>
      cases eq_of_beq isComma
      obtain ⟨_, _, item, further, closed⟩ := Owed.member key (inductionHypothesis taken)
      exact .ended (.bracket (.comma (token_of_skipBlanks split) item further) closed)
  | case17 => cases taken

/-! ### Whatever has the form of a value is passed over -/

/-- Pass over an item of the innermost bracket and all that it owes. -/
def skipItem (bracket : Bracket) (outer : List Bracket) (bytes : List UInt8) :
    Except Failure (List UInt8) :=
  match bracket with
  | .list => skipFrom .value (.list :: outer) bytes
  | .object =>
    match skipKey bytes with
    | .error failure => .error failure
    | .ok after => skipFrom .value (.object :: outer) after

theorem skipFrom_value_of_atom {brackets : List Bracket} {first : UInt8}
    {bytes more after : List UInt8} (split : skipBlanks bytes = first :: more)
    (noList : first ≠ 0x5b) (noObject : first ≠ 0x7b) (atom : skipAtom first more = .ok after) :
    skipFrom .value brackets bytes = skipFrom .ended brackets after := by
  rw [skipFrom.eq_def]
  dsimp only
  split
  · rename_i none
    rw [split] at none
    cases none
  · rename_i found
    rw [split] at found
    cases found
    simp only [beq_iff_eq, noList, noObject, if_false]
    split
    · rename_i failed
      rw [atom] at failed
      cases failed
    · rename_i passed
      rw [atom] at passed
      cases passed
      rfl

theorem skipFrom_value_of_opener {brackets : List Bracket} {bracket : Bracket}
    {bytes more : List UInt8} (split : skipBlanks bytes = bracket.opener :: more) :
    skipFrom .value brackets bytes = skipFrom .opened (bracket :: brackets) more := by
  rw [skipFrom.eq_def]
  dsimp only
  split
  · rename_i none
    rw [split] at none
    cases none
  · rename_i found
    rw [split] at found
    cases found
    cases bracket <;> rfl

theorem skipFrom_of_closer {phase : Phase} (noValue : phase ≠ .value) {bracket : Bracket}
    {outer : List Bracket} {bytes rest : List UInt8} (closed : Token bracket.closer bytes rest) :
    skipFrom phase (bracket :: outer) bytes = skipFrom .ended outer rest := by
  have split := closed.skipBlanks_eq bracket.isBlank_closer
  cases phase with
  | value => exact absurd rfl noValue
  | opened | ended =>
      rw [skipFrom.eq_def]
      dsimp only
      split
      · rename_i none
        rw [split] at none
        cases none
      · rename_i found
        rw [split] at found
        cases found
        rw [if_pos (beq_self_eq_true _)]

theorem skipFrom_opened_of_item {bracket : Bracket} {outer : List Bracket} {first : UInt8}
    {bytes more : List UInt8} (split : skipBlanks bytes = first :: more)
    (notClosed : first ≠ bracket.closer) :
    skipFrom .opened (bracket :: outer) bytes = skipItem bracket outer bytes := by
  rw [skipFrom.eq_def]
  dsimp only
  split
  · rename_i none
    rw [split] at none
    cases none
  · rename_i found
    rw [split] at found
    cases found
    rw [if_neg (by simpa using notClosed)]
    cases bracket with
    | list => rfl
    | object =>
        simp only [skipItem]
        split <;> simp [*]

theorem skipFrom_ended_of_comma {bracket : Bracket} {outer : List Bracket}
    {bytes start : List UInt8} (comma : Token 0x2c bytes start) :
    skipFrom .ended (bracket :: outer) bytes = skipItem bracket outer start := by
  have split := comma.skipBlanks_eq (by decide)
  rw [skipFrom.eq_def]
  dsimp only
  split
  · rename_i none
    rw [split] at none
    cases none
  · rename_i found
    rw [split] at found
    cases found
    rw [if_neg (by cases bracket <;> decide), if_pos (by decide)]
    cases bracket with
    | list => rfl
    | object =>
        simp only [skipItem]
        split <;> simp [*]

/-- The first byte of a value closes no bracket. -/
theorem Form.value_head {bytes rest : List UInt8} (value : Form .value bytes rest) :
    ∃ first more, bytes = first :: more ∧ isBlank first = false ∧ first ≠ 0x5d := by
  cases value with
  | literal rest known =>
      simp only [literals, List.mem_cons, List.not_mem_nil, or_false] at known
      rcases known with rfl | rfl | rfl <;>
        exact ⟨_, _, List.cons_append, by decide, by decide⟩
  | number number =>
      cases number with
      | positive unsigned =>
          obtain ⟨whole, _, _⟩ := unsigned
          obtain ⟨first, more, rfl⟩ := List.exists_cons_of_ne_nil whole.some
          have digit := whole.decimal first List.mem_cons_self
          refine ⟨first, _, whole.split.trans List.cons_append, isBlank_of_isDigit digit, ?_⟩
          rintro rfl
          cases digit
      | negative => exact ⟨_, _, rfl, by decide, by decide⟩
  | string => exact ⟨_, _, rfl, by decide, by decide⟩
  | @bracketed bracket =>
      exact ⟨_, _, rfl, by cases bracket <;> decide, by cases bracket <;> decide⟩

/-- Where an item starts, no bracket is closed. -/
theorem Form.item_head {bracket : Bracket} {bytes rest : List UInt8}
    (item : Form (.item bracket) bytes rest) :
    ∃ first more, skipBlanks bytes = first :: more ∧ first ≠ bracket.closer := by
  cases item with
  | element blanks value =>
      obtain ⟨first, more, rfl, dark, notClosed⟩ := value.value_head
      exact ⟨first, more, Token.skipBlanks_eq blanks dark, notClosed⟩
  | member quote => exact ⟨_, _, quote.skipBlanks_eq (by decide), by decide⟩

/-- What passing over a part of a value comes to when the part is there. -/
def Part.Passed : Part → List UInt8 → List UInt8 → Prop
  | .value, bytes, rest => Ends rest → ∀ {brackets : List Bracket} {before : List UInt8},
      Blanks before bytes → skipFrom .value brackets before = skipFrom .ended brackets rest
  | .inside bracket, bytes, rest => ∀ outer : List Bracket,
      skipFrom .opened (bracket :: outer) bytes = skipFrom .ended outer rest
  | .further bracket, bytes, rest => ∀ outer : List Bracket,
      skipFrom .ended (bracket :: outer) bytes = skipFrom .ended outer rest
  | .item bracket, bytes, rest => Ends rest → ∀ outer : List Bracket,
      skipItem bracket outer bytes = skipFrom .ended (bracket :: outer) rest

/-- Each part of a value is passed over as far as it goes. -/
theorem Form.skipFrom_eq {part : Part} {bytes rest : List UInt8} (form : Form part bytes rest) :
    part.Passed bytes rest := by
  induction form with
  | literal rest known =>
      intro _ brackets before blanks
      simp only [literals, List.mem_cons, List.not_mem_nil, or_false] at known
      rcases known with rfl | rfl | rfl <;>
        exact skipFrom_value_of_atom (Token.skipBlanks_eq blanks (by decide)) (by decide)
          (by decide) (readLiteral_eq_ok_iff.mpr rfl)
  | number number =>
      intro ends brackets before blanks
      cases number with
      | positive unsigned =>
          have passed := unsigned.skip_eq ends
          obtain ⟨whole, _, _⟩ := unsigned
          obtain ⟨first, more, rfl⟩ := List.exists_cons_of_ne_nil whole.some
          have digit := whole.decimal first List.mem_cons_self
          rw [whole.split, List.cons_append] at blanks passed
          rw [← skipAtom_of_isDigit digit] at passed
          refine skipFrom_value_of_atom (Token.skipBlanks_eq blanks (isBlank_of_isDigit digit))
            ?_ ?_ passed
          · rintro rfl
            cases digit
          · rintro rfl
            cases digit
      | negative unsigned =>
          exact skipFrom_value_of_atom (Token.skipBlanks_eq blanks (by decide)) (by decide)
            (by decide) (unsigned.skip_eq ends)
  | string body =>
      intro _ brackets before blanks
      exact skipFrom_value_of_atom (Token.skipBlanks_eq blanks (by decide)) (by decide)
        (by decide) (skipString_eq_ok_iff.mpr body)
  | @bracketed bracket bytes rest inside inductionHypothesis =>
      intro _ brackets before blanks
      have dark : isBlank bracket.opener = false := by cases bracket <;> decide
      rw [skipFrom_value_of_opener (Token.skipBlanks_eq blanks dark)]
      exact inductionHypothesis brackets
  | empty closed => exact fun outer => skipFrom_of_closer (by decide) closed
  | items first others firstHypothesis othersHypothesis =>
      intro outer
      obtain ⟨byte, more, split, notClosed⟩ := first.item_head
      rw [skipFrom_opened_of_item split notClosed, firstHypothesis others.ends outer]
      exact othersHypothesis outer
  | close closed => exact fun outer => skipFrom_of_closer (by decide) closed
  | comma comma next others nextHypothesis othersHypothesis =>
      intro outer
      rw [skipFrom_ended_of_comma comma, nextHypothesis others.ends outer]
      exact othersHypothesis outer
  | element blanks value inductionHypothesis =>
      exact fun ends outer => inductionHypothesis ends blanks
  | member quote key colon blanks value inductionHypothesis =>
      intro ends outer
      simp only [skipItem, skipKey_eq_ok_iff.mpr ⟨_, _, quote, key, colon⟩]
      exact inductionHypothesis ends blanks

/-! ### Whole values -/

theorem value_of_skipValue {bytes rest : List UInt8} (taken : skipValue bytes = .ok rest) :
    ∃ start, Blanks bytes start ∧ Form .value start rest := by
  cases owed_of_skipFrom taken with
  | value blanks value closed =>
      cases closed
      exact ⟨_, blanks, value⟩

/-- A value is passed over if nothing follows that could belong to a number. -/
theorem skipValue_of_value {bytes start rest : List UInt8} (blanks : Blanks bytes start)
    (value : Form .value start rest) (ends : Ends rest) : skipValue bytes = .ok rest := by
  have passed : skipFrom .value [] bytes = skipFrom .ended [] rest :=
    value.skipFrom_eq ends blanks
  rw [skipValue, passed, skipFrom]
  intro isValue
  cases isValue

end BuildImpact.Json
