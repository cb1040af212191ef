/-
Module: BuildImpact.Proofs.Closure.Journal
Layer: Proofs
Purpose: The expansions of a closure walk, each with the expansions in the course of which
  it is made.  A frame that holds the permission to expand the root again has not used it,
  and no expansion of the root by permission is under way around it.  So every expansion
  leads to another one of the root at most once, the first one of the walk and those in a
  chain alone do so, and within an expansion by permission there is no further one.
Imports: Mathlib.Data.List.Nodup, BuildImpact.Proofs.Closure.Expansions
Trusted boundary: none
Main exports: Closure.Expansion, Closure.Journal, Closure.Journal.note, Closure.Turn,
  Closure.turn_step, Closure.Reopens, Closure.UnderWay, Closure.Accounts,
  Closure.Accounts.turn, Closure.accounts_journaled, BuildGraph.expansions_bounded
Open obligations: none
-/
import Mathlib.Data.List.Nodup
import BuildImpact.Proofs.Closure.Expansions

namespace BuildImpact

variable {N : Type} [BEq N] [Hashable N] {graph : BuildGraph N} {root : N}

namespace Closure

/-! ### The journal of a walk -/

/-- An expansion with what led to it. -/
structure Expansion (N : Type) where
  unit : N
  /-- Whether the unit is expanded as a compile dependency. -/
  inChain : Bool
  /-- Whether this is the root, expanded again by the permission of a frame. -/
  again : Bool
  /-- The numbers of the expansions in the course of which this one is made, the
  innermost first. -/
  within : List Nat

/-- The expansions so far in their order, each with its place as its number, and the
numbers of those that are under way, the innermost first. -/
structure Journal (N : Type) where
  made : List (Expansion N)
  underWay : List Nat

namespace Journal

/-- A walk starts with the first expansion of the root. -/
def start (root : N) : Journal N := ⟨[⟨root, false, false, []⟩], [0]⟩

/-- A further expansion is made in the course of those under way, and is under way then. -/
def enter (journal : Journal N) (unit : N) (inChain again : Bool) : Journal N where
  made := journal.made ++ [⟨unit, inChain, again, journal.underWay⟩]
  underWay := journal.made.length :: journal.underWay

/-- What a step from `state` adds to the journal. -/
def note (journal : Journal N) (state : State N) : Journal N :=
  match state.stack with
  | [] => journal
  | frame :: _ =>
    match frame.pending with
    | [] => { journal with underWay := journal.underWay.tail }
    | edge :: _ =>
      if state.links.contains edge.target && !frame.revisits edge then journal
      else journal.enter edge.target (frame.found edge).2 (frame.revisits edge)

section Note

variable {links : Std.HashMap N Linkage} {expansions : List N} {frame : Frame N}
  {outer : List (Frame N)} {edge : Edge N} {pending : List (Edge N)} {journal : Journal N}

theorem note_of_finished {state : State N} (finished : state.stack = []) :
    journal.note state = journal := by
  rw [note, finished]

theorem note_leave (finished : frame.pending = []) :
    journal.note ⟨links, expansions, frame :: outer⟩ =
      { journal with underWay := journal.underWay.tail } := by
  simp only [note, finished]

theorem note_pass (next : frame.pending = edge :: pending) (linked : edge.target ∈ links)
    (once : frame.revisits edge = false) :
    journal.note ⟨links, expansions, frame :: outer⟩ = journal := by
  simp [note, next, linked, once]

theorem note_enter (next : frame.pending = edge :: pending)
    (due : edge.target ∉ links ∨ frame.revisits edge = true) :
    journal.note ⟨links, expansions, frame :: outer⟩ =
      journal.enter edge.target (frame.found edge).2 (frame.revisits edge) := by
  have entered : ¬ (links.contains edge.target && !frame.revisits edge) = true := by
    rcases due with new | again
    · simp [new]
    · simp [again]
  simp only [note, next, if_neg entered]

end Note

omit [BEq N] [Hashable N] in
theorem countP_enter (journal : Journal N) (unit : N) (inChain again : Bool)
    (counted : Expansion N → Bool) :
    (journal.enter unit inChain again).made.countP counted = journal.made.countP counted +
      if counted ⟨unit, inChain, again, journal.underWay⟩ then 1 else 0 := by
  rw [enter, List.countP_append, List.countP_singleton]

end Journal

/-- A step of a walk that keeps a journal. -/
def journalStep (graph : BuildGraph N) (walk : State N × Journal N) : State N × Journal N :=
  (step graph walk.1, walk.2.note walk.1)

/-- The walk from a root with its journal, after a number of steps. -/
def journaled (graph : BuildGraph N) (root : N) (steps : Nat) : State N × Journal N :=
  (journalStep graph)^[steps] (State.start graph root, .start root)

/-- The journal does not show in the walk. -/
theorem fst_journaled (graph : BuildGraph N) (root : N) (steps : Nat) :
    (journaled graph root steps).1 = (step graph)^[steps] (State.start graph root) := by
  induction steps with
  | zero => rfl
  | succ steps inductionHypothesis =>
      rw [Function.iterate_succ_apply', ← inductionHypothesis, journaled,
        Function.iterate_succ_apply', ← journaled, journalStep]

/-! ### What a step does to a walk and its journal -/

/-- The steps of a walk with its journal, by what becomes of the innermost frame. -/
inductive Turn (graph : BuildGraph N) : State N → Journal N → State N → Journal N → Prop where
  | leave {frame : Frame N} (ledger : Ledger N) (outer : List (Frame N)) (journal : Journal N)
      (finished : frame.pending = []) :
      Turn graph ⟨ledger.links, ledger.expansions, frame :: outer⟩ journal
        ⟨ledger.links, ledger.expansions, outer⟩
        { journal with underWay := journal.underWay.tail }
  | pass {frame : Frame N} {edge : Edge N} {pending : List (Edge N)} (ledger : Ledger N)
      (outer : List (Frame N)) (journal : Journal N) (next : frame.pending = edge :: pending) :
      Turn graph ⟨ledger.links, ledger.expansions, frame :: outer⟩ journal
        ⟨ledger.links, ledger.expansions, { frame with pending } :: outer⟩ journal
  /-- A unit that is not linked yet is expanded, and the frame keeps its permission. -/
  | expand {frame : Frame N} {edge : Edge N} {pending : List (Edge N)} (ledger : Ledger N)
      (outer : List (Frame N)) (journal : Journal N) (next : frame.pending = edge :: pending)
      (new : edge.target ∉ ledger.links) (once : frame.revisits edge = false) :
      Turn graph ⟨ledger.links, ledger.expansions, frame :: outer⟩ journal
        ⟨ledger.links.insert edge.target (frame.found edge).1, edge.target :: ledger.expansions,
          frame.opened graph edge :: { frame with pending } :: outer⟩
        (journal.enter edge.target (frame.found edge).2 false)
  /-- The root is expanded again, and the permission to do so is used. -/
  | reopen {frame : Frame N} {edge : Edge N} {pending : List (Edge N)} (ledger : Ledger N)
      (outer : List (Frame N)) (journal : Journal N) (next : frame.pending = edge :: pending)
      (again : frame.revisits edge = true) :
      Turn graph ⟨ledger.links, ledger.expansions, frame :: outer⟩ journal
        ⟨ledger.links.insert edge.target (frame.found edge).1, edge.target :: ledger.expansions,
          frame.opened graph edge :: { frame with pending, revisit := none } :: outer⟩
        (journal.enter edge.target (frame.found edge).2 true)

/-- An unfinished walk takes one of these steps. -/
theorem turn_step (state : State N) (journal : Journal N) (unfinished : state.stack ≠ []) :
    Turn graph state journal (step graph state) (journal.note state) := by
  have look : Look graph state (step graph state) := look_step state unfinished
  generalize step graph state = after at look
  cases look with
  | leave ledger outer finished =>
      rw [Journal.note_leave finished]
      exact .leave ledger outer journal finished
  | pass ledger outer next linked once =>
      rw [Journal.note_pass next linked once]
      exact .pass ledger outer journal next
  | @enter frame edge pending ledger outer next due =>
      rw [Journal.note_enter next due]
      cases again : frame.revisits edge with
      | true =>
          have spent : frame.suspend edge pending = { frame with pending, revisit := none } := by
            rw [Frame.suspend, again, if_pos rfl]
          rw [spent]
          exact .reopen ledger outer journal next again
      | false =>
          have new : edge.target ∉ ledger.links := by
            apply due.resolve_right
            rw [again]
            exact Bool.false_ne_true
          rw [Frame.suspend_of_once pending again]
          exact .expand ledger outer journal next new again

/-! ### Expansions by permission -/

/-- Whether a number is that of an expansion which is none of the root by permission. -/
def Plain (made : List (Expansion N)) (number : Nat) : Prop :=
  ∃ expansion, made[number]? = some expansion ∧ expansion.again = false

/-- Whether an expansion of the root by permission is in order: it is made in the course of
plain expansions only, and the innermost of them, which leads to it, is the first of the
walk or in a chain. -/
structure Reopens (made : List (Expansion N)) (root : N) (expansion : Expansion N) : Prop where
  isRoot : expansion.unit = root
  plain : ∀ number ∈ expansion.within, Plain made number
  opener : ∃ number outer opening, expansion.within = number :: outer ∧
    made[number]? = some opening ∧ (number = 0 ∨ opening.inChain = true)

/-- The numbers of the expansions that led to one of the root by permission. -/
def openers (made : List (Expansion N)) : List (Option Nat) :=
  (made.filter (·.again)).map (·.within.head?)

section Append

variable {made : List (Expansion N)} {number : Nat} {expansion : Expansion N}

omit [BEq N] [Hashable N] in
theorem lt_length_of_made (isMade : made[number]? = some expansion) : number < made.length :=
  (List.getElem?_eq_some_iff.mp isMade).1

omit [BEq N] [Hashable N] in
theorem getElem?_append_made (isMade : made[number]? = some expansion)
    (further : List (Expansion N)) : (made ++ further)[number]? = some expansion := by
  rw [List.getElem?_append_left (lt_length_of_made isMade), isMade]

omit [BEq N] [Hashable N] in
theorem Plain.append (plain : Plain made number) (further : List (Expansion N)) :
    Plain (made ++ further) number := by
  obtain ⟨expansion, isMade, first⟩ := plain
  exact ⟨expansion, getElem?_append_made isMade further, first⟩

omit [BEq N] [Hashable N] in
theorem Reopens.append (reopens : Reopens made root expansion) (further : List (Expansion N)) :
    Reopens (made ++ further) root expansion := by
  obtain ⟨number, outer, opening, within, isMade, allowed⟩ := reopens.opener
  refine ⟨reopens.isRoot, fun number member => (reopens.plain number member).append further, ?_⟩
  exact ⟨number, outer, opening, within, getElem?_append_made isMade further, allowed⟩

omit [BEq N] [Hashable N] in
theorem openers_append_plain (first : expansion.again = false) :
    openers (made ++ [expansion]) = openers made := by
  simp [openers, first]

omit [BEq N] [Hashable N] in
theorem openers_append_again (again : expansion.again = true) :
    openers (made ++ [expansion]) = openers made ++ [expansion.within.head?] := by
  simp [openers, again]

omit [BEq N] [Hashable N] in
/-- What led to an expansion of the root is an expansion made before. -/
theorem lt_length_of_mem_openers
    (reopened : ∀ expansion ∈ made, expansion.again = true → Reopens made root expansion)
    (led : some number ∈ openers made) : number < made.length := by
  obtain ⟨expansion, member, within⟩ := List.mem_map.mp led
  obtain ⟨isMade, again⟩ := List.mem_filter.mp member
  obtain ⟨_, earlier, _⟩ :=
    (reopened expansion isMade again).plain number (List.mem_of_mem_head? within)
  exact lt_length_of_made earlier

end Append

/-! ### The frames under way -/

/-- Whether the frames of a stack, the innermost first, are those of the expansions with
these numbers, and those with a permission may still use it. -/
inductive UnderWay (made : List (Expansion N)) : List (Frame N) → List Nat → Prop where
  | empty : UnderWay made [] []
  | inner {frame : Frame N} {frames : List (Frame N)} {number : Nat} {numbers : List Nat}
      {expansion : Expansion N} (isMade : made[number]? = some expansion)
      (chain : expansion.inChain = frame.inChain) (first : frame.isFirst = true → number = 0)
      (earlier : ∀ other ∈ numbers, other < number)
      (unspent : frame.revisit.isSome = true → some number ∉ openers made ∧
        ∀ other ∈ number :: numbers, Plain made other)
      (outer : UnderWay made frames numbers) :
      UnderWay made (frame :: frames) (number :: numbers)

namespace UnderWay

variable {made : List (Expansion N)} {frames : List (Frame N)} {numbers : List Nat}

omit [BEq N] [Hashable N] in
theorem length_eq (underWay : UnderWay made frames numbers) : numbers.length = frames.length := by
  induction underWay with
  | empty => rfl
  | inner _ _ _ _ _ _ inductionHypothesis =>
      rw [List.length_cons, List.length_cons, inductionHypothesis]

omit [BEq N] [Hashable N] in
/-- A further expansion leaves those under way as they are, unless it is one of the root
to which one of them led. -/
theorem append (underWay : UnderWay made frames numbers) {further : Expansion N}
    (apart : further.again = true → ∀ number ∈ numbers, further.within.head? ≠ some number) :
    UnderWay (made ++ [further]) frames numbers := by
  induction underWay with
  | empty => exact .empty
  | @inner frame frames number numbers _ isMade chain first earlier unspent _ inductionHypothesis =>
      refine .inner (getElem?_append_made isMade _) chain first earlier (fun held => ?_)
        (inductionHypothesis fun again other member =>
          apart again other (List.mem_cons_of_mem _ member))
      obtain ⟨notYet, plain⟩ := unspent held
      refine ⟨?_, fun other member => (plain other member).append _⟩
      cases again : further.again with
      | false =>
          rw [openers_append_plain again]
          exact notYet
      | true =>
          rw [openers_append_again again, List.mem_append, not_or, List.mem_singleton]
          exact ⟨notYet, (apart again number List.mem_cons_self).symm⟩

omit [BEq N] [Hashable N] in
/-- The frame at hand may be replaced by one with fewer permissions and any edges left. -/
theorem replace {frame later : Frame N} (underWay : UnderWay made (frame :: frames) numbers)
    (chain : later.inChain = frame.inChain) (first : later.isFirst = frame.isFirst)
    (held : later.revisit.isSome = true → frame.revisit.isSome = true) :
    UnderWay made (later :: frames) numbers := by
  cases underWay with
  | inner isMade sameChain isFirst earlier unspent outer =>
      exact .inner isMade (sameChain.trans chain.symm) (fun start => isFirst (first ▸ start))
        earlier (fun permission => unspent (held permission)) outer

omit [BEq N] [Hashable N] in
/-- The numbers of those under way are the places of expansions made. -/
theorem lt_length (underWay : UnderWay made frames numbers) :
    ∀ number ∈ numbers, number < made.length := by
  induction underWay with
  | empty => exact fun _ member => absurd member List.not_mem_nil
  | inner isMade _ _ _ _ _ inductionHypothesis =>
      exact List.forall_mem_cons.mpr ⟨lt_length_of_made isMade, inductionHypothesis⟩

/-- A unit that is expanded is under way.  The permission that it may get is the one of the
frame at hand, and is as unused. -/
theorem expand {frame : Frame N} {edge : Edge N}
    (underWay : UnderWay made (frame :: frames) numbers)
    (reopened : ∀ expansion ∈ made, expansion.again = true → Reopens made root expansion)
    (pending : List (Edge N)) :
    UnderWay (made ++ [⟨edge.target, (frame.found edge).2, false, numbers⟩])
      (frame.opened graph edge :: { frame with pending } :: frames)
      (made.length :: numbers) := by
  have outer : UnderWay made ({ frame with pending } :: frames) numbers :=
    underWay.replace rfl rfl id
  have kept : UnderWay (made ++ [⟨edge.target, (frame.found edge).2, false, numbers⟩])
      ({ frame with pending } :: frames) numbers :=
    outer.append Bool.noConfusion
  refine .inner List.getElem?_concat_length rfl (fun start => ?_) underWay.lt_length
    (fun held => ?_) kept
  · cases start
  · have inherited : frame.revisit.isSome = true := by
      obtain ⟨unit, permitted⟩ := Option.isSome_iff_exists.mp held
      rw [Frame.mem_revisit_opened permitted]
      rfl
    rw [openers_append_plain rfl]
    refine ⟨fun led => Nat.lt_irrefl _ (lt_length_of_mem_openers reopened led), ?_⟩
    intro other member
    rcases List.mem_cons.mp member with rfl | earlier
    · exact ⟨_, List.getElem?_concat_length, rfl⟩
    · cases underWay with
      | inner _ _ _ _ unspent _ => exact ((unspent inherited).2 other earlier).append _

/-- The root that is expanded again is under way without any permission, and the frame
that led to it has lost its own. -/
theorem reopen {frame : Frame N} {edge : Edge N}
    (underWay : UnderWay made (frame :: frames) numbers) (again : frame.revisits edge = true)
    (pending : List (Edge N)) :
    UnderWay (made ++ [⟨edge.target, (frame.found edge).2, true, numbers⟩])
      (frame.opened graph edge :: { frame with pending, revisit := none } :: frames)
      (made.length :: numbers) := by
  have bound := underWay.lt_length
  refine .inner List.getElem?_concat_length rfl (fun start => ?_) bound (fun held => ?_) ?_
  · cases start
  · rw [Frame.revisit_opened again] at held
    cases held
  · cases underWay with
    | inner isMade chain first earlier _ outer =>
        refine .inner (getElem?_append_made isMade _) chain first earlier (fun held => ?_)
          (outer.append fun _ other member same => ?_)
        · cases held
        · cases same
          exact Nat.lt_irrefl _ (earlier _ member)

omit [BEq N] [Hashable N] in
/-- What a frame with a permission stands for has not led to an expansion of the root. -/
theorem head?_notMem_openers {frame : Frame N}
    (underWay : UnderWay made (frame :: frames) numbers) (held : frame.revisit.isSome = true) :
    numbers.head? ∉ openers made := by
  cases underWay with
  | inner _ _ _ _ unspent _ => exact (unspent held).1

omit [Hashable N] in
/-- An edge that uses the permission of the frame at hand leads to an expansion in order. -/
theorem reopens [LawfulBEq N] {frame : Frame N} {edge : Edge N}
    (underWay : UnderWay made (frame :: frames) numbers)
    (permitted : ∀ unit ∈ frame.revisit, unit = root) (again : frame.revisits edge = true) :
    Reopens made root ⟨edge.target, (frame.found edge).2, true, numbers⟩ := by
  obtain ⟨permission, opens⟩ := Frame.revisits_iff.mp again
  cases underWay with
  | @inner _ _ number outer opening isMade chain first _ unspent _ =>
      have held : frame.revisit.isSome = true := by
        rw [permission]
        rfl
      refine ⟨permitted _ permission, (unspent held).2, number, outer, opening, rfl, isMade, ?_⟩
      rcases Frame.found_snd_iff.mp opens with inChain | ⟨isFirst, _⟩
      · exact .inr (chain.trans inChain)
      · exact .inl (first isFirst)

end UnderWay

/-! ### The accounts of a walk -/

/-- What holds of a walk and its journal between two steps. -/
structure Accounts (graph : BuildGraph N) (root : N) (state : State N) (journal : Journal N) :
    Prop where
  sound : Sound graph root state
  units : journal.made.map (·.unit) = state.expansions.reverse
  underWay : UnderWay journal.made state.stack journal.underWay
  reopened : ∀ expansion ∈ journal.made, expansion.again = true →
    Reopens journal.made root expansion
  once : (openers journal.made).Nodup
  /-- The root is expanded at the start and by permission, and at no other time. -/
  rootCount : journal.made.countP (·.unit == root) = 1 + journal.made.countP (·.again)
  /-- A permission stands for an expansion of the root to come.  Each expansion in a chain
  brings one at most, and those by permission none. -/
  charged : journal.made.countP (·.again) + state.stack.countP (·.revisit.isSome) ≤
    1 + journal.made.countP fun expansion => expansion.inChain && !expansion.again

namespace Accounts

variable {before after state : State N} {journal later : Journal N}

/-- A permission that an expansion gets is the one of the frame at hand, handed on within
a chain. -/
theorem inChain_of_inherited {frame : Frame N} {edge : Edge N}
    (inherited : (frame.opened graph edge).revisit.isSome = true) :
    (frame.found edge).2 = true := by
  by_contra outside
  rw [Frame.opened, if_neg outside] at inherited
  cases inherited

omit [BEq N] [Hashable N] in
/-- The expansions by permission stay in order when a further one is made. -/
theorem reopened_enter (reopened : ∀ expansion ∈ journal.made, expansion.again = true →
      Reopens journal.made root expansion) (unit : N) (inChain again : Bool)
    (fresh : again = true → Reopens journal.made root ⟨unit, inChain, again, journal.underWay⟩) :
    ∀ expansion ∈ (journal.enter unit inChain again).made, expansion.again = true →
      Reopens (journal.enter unit inChain again).made root expansion := by
  intro expansion member isAgain
  rcases List.mem_append.mp member with old | last
  · exact (reopened expansion old isAgain).append _
  · cases List.mem_singleton.mp last
    exact (fresh isAgain).append _

variable [LawfulBEq N]

/-- A step keeps the accounts. -/
theorem turn (accounts : Accounts graph root before journal)
    (turn : Turn graph before journal after later) (sound : Sound graph root after) :
    Accounts graph root after later := by
  obtain ⟨soundBefore, units, underWay, reopened, once, rootCount, charged⟩ := accounts
  cases turn with
  | @leave frame ledger outer _ finished =>
      refine ⟨sound, units, ?_, reopened, once, rootCount, ?_⟩
      · generalize journal.underWay = numbers at underWay
        cases underWay with
        | inner _ _ _ _ _ outer => exact outer
      · exact (Nat.add_le_add_left (List.sublist_cons_self frame outer).countP_le _).trans charged
  | @pass frame edge pending ledger outer _ next =>
      refine ⟨sound, units, underWay.replace rfl rfl id, reopened, once, rootCount, ?_⟩
      rw [List.countP_cons] at charged ⊢
      exact charged
  | @expand frame edge pending ledger outer _ next new plain =>
      have other : edge.target ≠ root := fun toRoot => new (toRoot ▸ soundBefore.root_linked)
      refine ⟨sound, ?_, underWay.expand reopened pending,
        reopened_enter reopened _ _ _ Bool.noConfusion, ?_, ?_, ?_⟩
      · simp [Journal.enter, units]
      · rw [Journal.enter, openers_append_plain rfl]
        exact once
      · simp [Journal.countP_enter, other, rootCount]
      · -- A permission that is handed on is charged to the expansion in a chain.
        have handedOn : (frame.opened graph edge).revisit.isSome = true →
            (frame.found edge).2 = true := inChain_of_inherited
        simp only [Journal.countP_enter, List.countP_cons] at charged ⊢
        grind
  | @reopen frame edge pending ledger outer _ next again =>
      have permitted := soundBefore.revisit frame List.mem_cons_self
      have permission := Frame.revisit_of_revisits again
      have toRoot : edge.target = root := permitted _ permission
      refine ⟨sound, ?_, underWay.reopen again pending,
        reopened_enter reopened _ _ _ fun _ => underWay.reopens permitted again, ?_, ?_, ?_⟩
      · simp [Journal.enter, units]
      · have held : frame.revisit.isSome = true := by
          rw [permission]
          rfl
        rw [Journal.enter, openers_append_again rfl]
        apply once.append (List.nodup_singleton _)
        rw [List.disjoint_singleton]
        exact underWay.head?_notMem_openers held
      · simp [Journal.countP_enter, toRoot, rootCount, Nat.add_assoc]
      · -- The permission of the frame is used, and none is handed on.
        have spent : (frame.opened graph edge).revisit = none := Frame.revisit_opened again
        simp only [Journal.countP_enter, List.countP_cons, permission, spent] at charged ⊢
        grind

/-- The accounts hold when a walk starts. -/
theorem start (graph : BuildGraph N) (root : N) :
    Accounts graph root (State.start graph root) (.start root) where
  sound := .start graph root
  units := rfl
  underWay := by
    apply UnderWay.inner rfl rfl (fun _ => rfl) (fun _ member => absurd member List.not_mem_nil)
      (fun _ => ⟨List.not_mem_nil, ?_⟩) .empty
    intro number member
    cases List.mem_singleton.mp member
    exact ⟨_, rfl, rfl⟩
  reopened := by
    intro expansion member again
    cases List.mem_singleton.mp member
    cases again
  once := List.nodup_nil
  rootCount := by simp [Journal.start]
  charged := by simp [Journal.start, State.start]

/-- A step of a walk that keeps a journal keeps the accounts. -/
theorem step (accounts : Accounts graph root state journal) :
    Accounts graph root (step graph state) (journal.note state) := by
  by_cases finished : state.stack = []
  · rwa [step_of_finished finished, Journal.note_of_finished finished]
  · exact accounts.turn (turn_step state journal finished) accounts.sound.step

end Accounts

/-- The accounts hold at any time of a walk. -/
theorem accounts_journaled [LawfulBEq N] (graph : BuildGraph N) (root : N) (steps : Nat) :
    Accounts graph root (journaled graph root steps).1 (journaled graph root steps).2 := by
  induction steps with
  | zero => exact .start graph root
  | succ steps inductionHypothesis =>
      rw [journaled, Function.iterate_succ_apply', ← journaled]
      exact inductionHypothesis.step

end Closure

namespace BuildGraph

open Closure

/-- The journal of the finished closure walk from `root`. -/
def closureJournal (graph : BuildGraph N) (root : N) : Journal N :=
  (journaled graph root (budget graph)).2

variable [LawfulBEq N]

/-- The accounts of the finished walk, in which nothing is under way any more. -/
theorem accounts_closureJournal (graph : BuildGraph N) (root : N) :
    Accounts graph root (graph.closureWalk root) (graph.closureJournal root) := by
  have accounts := accounts_journaled graph root (budget graph)
  rwa [fst_journaled, ← run_eq_iterate] at accounts

/-- A closure walk empties its stack after finitely many steps.  It expands every unit that
the root reaches once, but for the root itself.  Each expansion leads to a further one of
the root at most once, and to none unless it is the first one of the walk or made in
a chain, and no expansion in the course of a further one of the root leads to yet another. -/
theorem expansions_bounded (graph : BuildGraph N) (root : N) :
    (∃ last ≤ budget graph,
      (∀ fewer < last, ((step graph)^[fewer] (State.start graph root)).stack ≠ []) ∧
      (graph.closureWalk root).stack = [] ∧
      (step graph)^[last] (State.start graph root) = graph.closureWalk root) ∧
    (∀ count, (journaled graph root count).1 = (step graph)^[count] (State.start graph root) ∧
      (journaled graph root count).2.underWay.length =
        (journaled graph root count).1.stack.length) ∧
    (graph.closureJournal root).made.map (·.unit) = (graph.closureWalk root).expansions.reverse ∧
    (∀ unit, unit ≠ root → graph.Reaches root unit →
      (graph.closureJournal root).made.countP (·.unit == unit) = 1) ∧
    (graph.closureJournal root).made.countP (·.unit == root) =
      1 + (graph.closureJournal root).made.countP (·.again) ∧
    (graph.closureJournal root).made.countP (·.again) ≤
      1 + (graph.closureJournal root).made.countP
        (fun expansion => expansion.inChain && !expansion.again) ∧
    (openers (graph.closureJournal root).made).Nodup ∧
    (∀ expansion ∈ (graph.closureJournal root).made, expansion.again = true →
      Reopens (graph.closureJournal root).made root expansion) := by
  have finished := stack_closureWalk graph root
  obtain ⟨_, units, _, reopened, once, rootCount, charged⟩ := graph.accounts_closureJournal root
  refine ⟨?_, fun count => ⟨fst_journaled graph root count, ?_⟩, units,
    fun unit other reaches => ?_, rootCount, (Nat.le_add_right _ _).trans charged, once, reopened⟩
  · rw [closureWalk, run_eq_iterate] at finished ⊢
    obtain ⟨last, within, unfinished, same⟩ :=
      Search.exists_first_finished (fun _ => step_of_finished) finished
    exact ⟨last, within, unfinished, finished, same⟩
  · exact (accounts_journaled graph root count).underWay.length_eq
  · have count : (graph.closureJournal root).made.countP (·.unit == unit) =
        ((graph.closureJournal root).made.map (·.unit)).count unit := by
      rw [List.count, List.countP_map]
      rfl
    rw [count, units, List.count_reverse, graph.count_expansions_of_ne other,
      if_pos ((graph.mem_closure_iff root unit).mpr reaches)]

/-- In `waysBack 2` the walk ends, and has expanded the root twice by permission. -/
theorem expansions_bounded_waysBack :
    (∃ last, ((step (waysBack 2))^[last] (State.start (waysBack 2) 0)).stack = []) ∧
      ((waysBack 2).closureJournal 0).made.countP (·.again) = 2 ∧
      ∃ expansion ∈ ((waysBack 2).closureJournal 0).made, expansion.again = true ∧
        Reopens ((waysBack 2).closureJournal 0).made 0 expansion := by
  obtain ⟨⟨last, _, _, finished, same⟩, _, units, _, rootCount, _, _, reopened⟩ :=
    expansions_bounded (waysBack 2) 0
  have three : ((waysBack 2).closureJournal 0).made.countP (·.unit == 0) = 3 := by
    have expanded := count_root_waysBack 2
    rw [← List.count_reverse, ← units, List.count, List.countP_map] at expanded
    exact expanded
  have two : ((waysBack 2).closureJournal 0).made.countP (·.again) = 2 := by omega
  obtain ⟨expansion, member, again⟩ := List.countP_pos_iff.mp (two ▸ Nat.two_pos)
  exact ⟨⟨last, same ▸ finished⟩, two, expansion, member, again, reopened expansion member again⟩

end BuildGraph

end BuildImpact
