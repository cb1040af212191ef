/-
Module: BuildImpact.Proofs.Closure.Expansions
Layer: Proofs
Purpose: How often a closure walk expands a unit.  Every unit but the root is expanded
  once if it is reached.  The root is expanded again if and only if it lies behind one of
  its own compile edges.  Every frame of a chain holds a permission of its own to do so,
  which bounds these expansions by the number of units from which a chain can return.
Imports: Mathlib.Data.Set.Card, Mathlib.Order.Interval.Finset.Nat,
  BuildImpact.Proofs.Closure.Compile
Trusted boundary: none
Main exports: BuildGraph.Returns, BuildGraph.exists_returns_iff, Closure.Frame.Returning,
  Closure.Ledger.charge, Closure.Sweep.count_eq_ite, Closure.Sweep.charge_le,
  BuildGraph.count_expansions
Open obligations: none
-/
import Mathlib.Data.Set.Card
import Mathlib.Order.Interval.Finset.Nat
import BuildImpact.Proofs.Closure.Compile

namespace BuildImpact

variable {N : Type} [BEq N] [Hashable N] {graph : BuildGraph N} {root unit : N}

namespace BuildGraph

/-- Whether a chain from `root` can return to it by an edge of `unit`: a unit behind
a compile edge of the root has an edge to it, or the root a compile edge to itself. -/
def Returns (graph : BuildGraph N) (root unit : N) : Prop :=
  ∃ edge ∈ graph.edges unit, edge.target = root ∧
    (unit = root ∧ edge.kind = .compile ∨ unit ≠ root ∧ graph.CompileReaches root unit)

theorem exists_returns_iff :
    (∃ unit, graph.Returns root unit) ↔ graph.CompileReaches root root := by
  constructor
  · rintro ⟨unit, edge, given, rfl, ⟨rfl, kind⟩ | ⟨_, behind⟩⟩
    · exact ⟨edge, given, kind, .refl _⟩
    · exact behind.trans (.of_mem given)
  · rintro ⟨edge, given, kind, reaches⟩
    rcases reaches.eq_or_exists_edge with toRoot | ⟨unit, away, behind, last, isLast, toRoot⟩
    · exact ⟨root, edge, given, toRoot, .inl ⟨rfl, kind⟩⟩
    · exact ⟨unit, last, isLast, toRoot, .inr ⟨away, edge, given, kind, behind⟩⟩

end BuildGraph

namespace Closure

/-! ### Frames that return to the root -/

namespace Frame

variable {frame : Frame N} {edge : Edge N} {pending : List (Edge N)}

/-- Whether a frame is going to expand the root again by one of its own edges. -/
def Returning (frame : Frame N) : Prop := ∃ edge ∈ frame.pending, frame.revisits edge = true

omit [Hashable N] in
theorem Returning.of_rest (next : frame.pending = edge :: pending)
    (returning : Returning { frame with pending }) : frame.Returning := by
  obtain ⟨given, later, again⟩ := returning
  exact ⟨given, next ▸ List.mem_cons_of_mem _ later, again⟩

omit [Hashable N] in
/-- Without a permission a frame does not return. -/
theorem not_returning (spent : frame.revisit = none) : ¬ frame.Returning := by
  rintro ⟨edge, _, again⟩
  rw [revisits, spent] at again
  cases again

omit [Hashable N] in
/-- A permission that is used is gone from the frame behind the edge and from what
the edge opens. -/
theorem revisit_suspend (pending : List (Edge N)) (again : frame.revisits edge = true) :
    (frame.suspend edge pending).revisit = none := by
  rw [suspend, again, if_pos rfl]

omit [Hashable N] in
theorem suspend_of_once (pending : List (Edge N)) (once : frame.revisits edge = false) :
    frame.suspend edge pending = { frame with pending } := by
  rw [suspend, once, if_neg Bool.false_ne_true]

theorem revisit_opened (again : frame.revisits edge = true) :
    (frame.opened graph edge).revisit = none := by
  rw [opened, revisit_suspend [] again, ite_self]

/-- An opened frame that returns belongs to a chain, and its unit has an edge to
the root. -/
theorem Returning.of_opened [LawfulBEq N] (permitted : ∀ unit ∈ frame.revisit, unit = root)
    (returning : (frame.opened graph edge).Returning) :
    (frame.found edge).2 = true ∧ ∃ given ∈ graph.edges edge.target, given.target = root := by
  obtain ⟨given, member, again⟩ := returning
  have permission := revisit_of_revisits again
  refine ⟨?_, given, (strongestFirst_perm _).mem_iff.mp member,
    permitted _ (mem_revisit_opened permission)⟩
  by_contra closed
  rw [opened, if_neg closed] at permission
  cases permission

end Frame

/-! ### How often a unit is expanded -/

/-- The expansions of the root so far, and one more for each of the units `ways`
that is not linked yet. -/
noncomputable def Ledger.charge (ledger : Ledger N) (root : N) (ways : Finset N) : Nat :=
  open Classical in
  ledger.expansions.count root + (ways.filter (· ∉ ledger.links)).card

namespace Sweep

variable [LawfulBEq N] {frame : Frame N} {before after : Ledger N}

/-- A sweep expands every other unit than the root with its first link, and at no
other time. -/
theorem count_eq_ite (sweep : Sweep graph frame before after)
    (permitted : ∀ unit ∈ frame.revisit, unit = root) (other : unit ≠ root)
    (once : before.expansions.count unit = if unit ∈ before.links then 1 else 0) :
    after.expansions.count unit = if unit ∈ after.links then 1 else 0 := by
  induction sweep with
  | leave => exact once
  | pass _ _ _ _ inductionHypothesis => exact inductionHypothesis permitted once
  | @enter frame edge _ before _ _ _ due _ _ innerHypothesis restHypothesis =>
      refine restHypothesis (fun _ given => permitted _ (Frame.mem_revisit_suspend given))
        (innerHypothesis (fun _ given => permitted _ (Frame.mem_revisit_opened given)) ?_)
      simp only [Ledger.enter, List.count_cons, Std.HashMap.mem_insert, once]
      by_cases isTarget : edge.target = unit
      · have new : unit ∉ before.links := by
          rw [← isTarget]
          refine due.resolve_right fun again => other ?_
          exact isTarget ▸ permitted _ (Frame.revisit_of_revisits again)
        simp [isTarget, new]
      · simp [isTarget]

end Sweep

namespace Ledger

variable [LawfulBEq N]

open Classical in
/-- Of the units that are not linked yet, entering one takes it away. -/
theorem filter_enter (ledger : Ledger N) (unit : N) (link : Linkage) (ways : Finset N) :
    ways.filter (· ∉ (ledger.enter unit link).links) =
      (ways.filter (· ∉ ledger.links)).erase unit := by
  ext other
  simp only [Finset.mem_filter, Finset.mem_erase, mem_enter, not_or, ne_comm]
  exact and_left_comm

/-- Expanding the root again is charged once. -/
theorem charge_again (ledger : Ledger N) (root : N) (link : Linkage) (ways : Finset N) :
    (ledger.enter root link).charge root ways ≤ ledger.charge root ways + 1 := by
  classical
  rw [charge, charge, filter_enter, enter, List.count_cons_self, Nat.add_right_comm]
  exact Nat.succ_le_succ (Nat.add_le_add_left Finset.card_erase_le _)

/-- Linking another unit is not charged; with a way back to the root it gives one
expansion of the root in return. -/
theorem charge_new (ledger : Ledger N) (link : Linkage) (ways : Finset N) (other : unit ≠ root)
    (new : unit ∉ ledger.links) :
    (ledger.enter unit link).charge root ways ≤ ledger.charge root ways ∧
      (unit ∈ ways → (ledger.enter unit link).charge root ways + 1 ≤ ledger.charge root ways) := by
  classical
  rw [charge, charge, filter_enter, enter, List.count_cons_of_ne other]
  refine ⟨Nat.add_le_add_left Finset.card_erase_le _, fun isWay => ?_⟩
  rw [Nat.add_assoc, Finset.card_erase_add_one (Finset.mem_filter.mpr ⟨isWay, new⟩)]

end Ledger

namespace Sweep

variable [LawfulBEq N] {frame : Frame N} {before after : Ledger N}

/-- A first edge that expands the root again adds to its expansions. -/
theorem count_lt_of_revisits (sweep : Sweep graph frame before after)
    {edge : Edge N} {pending : List (Edge N)} (first : frame.pending = edge :: pending)
    (again : frame.revisits edge = true) :
    before.expansions.count edge.target < after.expansions.count edge.target := by
  obtain ⟨middle, inner, rest⟩ := sweep.exists_entered first (.inr again)
  exact count_lt_of_entered inner rest

/-- What a sweep can add to the expansions of the root: one for each unit that it
links and that can return to the root, and one for the frame itself. -/
theorem charge_le (sweep : Sweep graph frame before after) (owed : frame.Owed graph root)
    (permitted : ∀ unit ∈ frame.revisit, unit = root) (rootLinked : root ∈ before.links)
    {ways : Finset N} (complete : ∀ unit, graph.Returns root unit → unit ∈ ways) :
    after.charge root ways ≤ before.charge root ways + 1 ∧
      (¬ frame.Returning → after.charge root ways ≤ before.charge root ways) := by
  induction sweep with
  | leave => exact ⟨Nat.le_succ _, fun _ => Nat.le_refl _⟩
  | pass next _ _ _ inductionHypothesis =>
      exact (inductionHypothesis (owed.rest next _) permitted rootLinked).imp_right
        fun swept apart => swept fun returning => apart (.of_rest next returning)
  | @enter frame edge pending before middle after next due inner rest innerHypothesis
      restHypothesis =>
      have isPending : edge ∈ frame.pending := next ▸ List.mem_cons_self
      have rootEntered : root ∈ (before.enter edge.target (frame.found edge).1).links :=
        Ledger.mem_enter.mpr (.inr rootLinked)
      have inward := innerHypothesis (owed.opened isPending)
        (fun _ given => permitted _ (Frame.mem_revisit_opened given)) rootEntered
      have onward := restHypothesis (owed.rest next _)
        (fun _ given => permitted _ (Frame.mem_revisit_suspend given))
        (inner.mem_of_mem rootEntered)
      cases again : frame.revisits edge with
      | true =>
          have toRoot := permitted _ (Frame.revisit_of_revisits again)
          have entered := before.charge_again root (frame.found edge).1 ways
          rw [toRoot] at inward
          have innerCharge := inward.2 (Frame.not_returning (Frame.revisit_opened again))
          have restCharge := onward.2 (Frame.not_returning (Frame.revisit_suspend _ again))
          refine ⟨restCharge.trans (innerCharge.trans entered), fun apart => ?_⟩
          exact absurd ⟨edge, isPending, again⟩ apart
      | false =>
          have new : edge.target ∉ before.links := by
            refine due.resolve_right fun isAgain => ?_
            rw [again] at isAgain
            cases isAgain
          have other : edge.target ≠ root := fun toRoot => new (toRoot ▸ rootLinked)
          have entered := before.charge_new (frame.found edge).1 ways other new
          have innerCharge : middle.charge root ways ≤ before.charge root ways := by
            by_cases returning : (frame.opened graph edge).Returning
            · obtain ⟨opened, given, member, toRoot⟩ := returning.of_opened permitted
              have isWay := complete edge.target
                ⟨given, member, toRoot, .inr ⟨other, owed.compileReaches isPending opened⟩⟩
              exact inward.1.trans (entered.2 isWay)
            · exact (inward.2 returning).trans entered.1
          rw [Frame.suspend_of_once _ again] at onward
          refine ⟨onward.1.trans (Nat.succ_le_succ innerCharge), fun apart => ?_⟩
          exact (onward.2 fun returning => apart (.of_rest next returning)).trans innerCharge

end Sweep

theorem count_start [LawfulBEq N] (graph : BuildGraph N) (root : N) :
    (State.start graph root).ledger.expansions.count root = 1 :=
  List.count_singleton_self

/-- Only a compile edge to itself has the root expanded again by its own frame. -/
theorem returns_of_returning [LawfulBEq N] (returning : (rootFrame graph root).Returning) :
    graph.Returns root root := by
  obtain ⟨edge, member, again⟩ := returning
  obtain ⟨permission, opened⟩ := Frame.revisits_iff.mp again
  have toRoot : edge.target = root := (Option.some.inj permission).symm
  have kind := (Frame.found_snd_iff.mp opened).resolve_left Bool.false_ne_true
  exact ⟨edge, (strongestFirst_perm _).mem_iff.mp member, toRoot, .inl ⟨rfl, kind.2⟩⟩

end Closure

namespace BuildGraph

open Closure

variable [LawfulBEq N]

/-- Every unit that is reached is expanded once, but for the root. -/
theorem count_expansions_of_ne (graph : BuildGraph N) (other : unit ≠ root) :
    (graph.closureWalk root).expansions.count unit =
      if unit ∈ graph.closure root then 1 else 0 := by
  refine (sweep_closureWalk graph root).count_eq_ite (by rintro unit ⟨⟩; rfl) other ?_
  have new : unit ∉ (State.start graph root).ledger.links := fun old =>
    other (mem_start_iff.mp old)
  rw [if_neg new, State.ledger, State.start, List.count_cons_of_ne other.symm, List.count_nil]

/-- The root is expanded once, and once more at most for each unit from which a
chain can return. -/
theorem count_expansions_root_le {ways : Finset N}
    (complete : ∀ unit, graph.Returns root unit → unit ∈ ways) :
    (graph.closureWalk root).expansions.count root ≤ 1 + ways.card := by
  classical
  have swept := (sweep_closureWalk graph root).charge_le (rootFrame_owed graph root)
    (by rintro unit ⟨⟩; rfl) (mem_start_iff.mpr rfl) complete
  have start : (State.start graph root).ledger.charge root ways = 1 + (ways.erase root).card := by
    have entered : (State.start graph root).ledger =
        Ledger.enter ⟨Std.HashMap.emptyWithCapacity, []⟩ root .compile := rfl
    rw [entered, Ledger.charge, Ledger.filter_enter]
    simp [Ledger.enter]
  have count : (graph.closureWalk root).expansions.count root ≤
      (graph.closureWalk root).ledger.charge root ways := Nat.le_add_right _ _
  by_cases isWay : root ∈ ways
  · have := Finset.card_erase_add_one isWay
    omega
  · have := swept.2 fun returning => isWay (complete root (returns_of_returning returning))
    rw [Finset.erase_eq_of_notMem isWay] at start
    omega

/-- A root behind one of its own compile edges is expanded again. -/
theorem one_lt_count_expansions (back : graph.CompileReaches root root) :
    1 < (graph.closureWalk root).expansions.count root := by
  obtain ⟨middle, _, _, first, second, _⟩ := exists_front_sweep (compileFrame_first graph root)
  obtain ⟨unit, edge, given, toRoot, way⟩ := exists_returns_iff.mpr back
  have expanded := first.reopened (compileFrame_compiling graph root) rfl ?_
  · rw [count_start] at expanded
    exact expanded.trans_le (second.count_le root)
  · rcases way with ⟨rfl, kind⟩ | ⟨away, behind⟩
    · exact .inl ⟨edge, List.mem_filter.mpr ⟨given, beq_iff_eq.mpr kind⟩, toRoot⟩
    · exact .inr ⟨unit, mem_of_compileReaches first behind,
        fun old => away (mem_start_iff.mp old), edge, given, toRoot⟩

/-- Only reached units are ways back to the root. -/
theorem finite_returns (graph : BuildGraph N) (root : N) :
    {unit | graph.Returns root unit}.Finite := by
  refine (graph.closure root).keys.finite_toSet.subset ?_
  rintro unit ⟨_, _, _, way⟩
  refine Std.HashMap.mem_keys.mpr ((graph.mem_closure_iff root unit).mpr ?_)
  rcases way with ⟨rfl, _⟩ | ⟨_, edge, given, _, reaches⟩
  · exact .refl _
  · exact (Reaches.of_mem given).trans reaches

/-- Every unit that is reached is expanded once, but for the root.  The root is
expanded again just when it lies behind one of its own compile edges, and not more
often than there are units from which a chain can return to it; so if there is one
such unit at most, the root is expanded twice at most. -/
theorem count_expansions (graph : BuildGraph N) (root : N) :
    (∀ unit, unit ≠ root → (graph.closureWalk root).expansions.count unit =
      if unit ∈ graph.closure root then 1 else 0) ∧
    1 ≤ (graph.closureWalk root).expansions.count root ∧
    (1 < (graph.closureWalk root).expansions.count root ↔ graph.CompileReaches root root) ∧
    (graph.closureWalk root).expansions.count root ≤
      1 + {unit | graph.Returns root unit}.ncard ∧
    ∀ way, (∀ unit, graph.Returns root unit → unit = way) →
      (graph.closureWalk root).expansions.count root ≤ 2 := by
  have bound : (graph.closureWalk root).expansions.count root ≤
      1 + {unit | graph.Returns root unit}.ncard := by
    rw [Set.ncard_eq_toFinset_card _ (finite_returns graph root)]
    exact count_expansions_root_le fun unit returns =>
      (finite_returns graph root).mem_toFinset.mpr returns
  refine ⟨fun unit other => graph.count_expansions_of_ne other, ?_, ⟨fun again => ?_, ?_⟩, bound,
    fun way only => ?_⟩
  · exact (count_start graph root).symm.trans_le ((sweep_closureWalk graph root).count_le root)
  · -- Without a way back the bound is one expansion.
    by_contra apart
    have none : {unit | graph.Returns root unit} = ∅ :=
      Set.eq_empty_of_forall_notMem fun unit returns =>
        apart (exists_returns_iff.mp ⟨unit, returns⟩)
    rw [none, Set.ncard_empty] at bound
    omega
  · exact one_lt_count_expansions
  · exact count_expansions_root_le fun unit returns => Finset.mem_singleton.mpr (only unit returns)

/-- In `chainBack` one unit leads back to the root, which is expanded twice. -/
theorem count_expansions_chainBack :
    (chainBack.closureWalk 0).expansions.count 0 = 2 ∧
      (chainBack.closureWalk 0).expansions.count 1 = 1 := by
  have edges : chainBack.edges 0 = [⟨2, .runtime⟩, ⟨1, .compile⟩] ∧
      chainBack.edges 1 = [⟨0, .runtime⟩] := by
    simp [chainBack, ofList]
  have opens : (⟨1, .compile⟩ : Edge Nat) ∈ chainBack.edges 0 := by simp [edges]
  have needed : (⟨0, .runtime⟩ : Edge Nat) ∈ chainBack.edges 1 := by simp [edges]
  have onlyWay : ∀ unit, ∀ edge ∈ chainBack.edges unit, edge.target = 0 → unit = 1 :=
    forall_edges_ofList.mpr (by decide)
  obtain ⟨others, _, again, _, few⟩ := count_expansions chainBack 0
  have more := again.mpr ⟨_, opens, rfl, .of_mem needed⟩
  have only : ∀ unit, chainBack.Returns 0 unit → unit = 1 := by
    rintro unit ⟨edge, given, target, _⟩
    exact onlyWay unit edge given target
  have reached : 1 ∈ chainBack.closure 0 := (mem_closure_iff _ _ _).mpr (.of_mem opens)
  exact ⟨Nat.le_antisymm (few 1 only) more, (others 1 (by decide)).trans (if_pos reached)⟩

/-! ### A graph with many ways back -/

/-- A graph in which `0` opens a chain of compile dependencies, and the next `ways`
units of the chain all need `0` at run time. -/
def waysBack : Nat → BuildGraph Nat
  | 0 => empty.addEdges 0 [⟨1, .compile⟩]
  | ways + 1 => (waysBack ways).addEdges (ways + 1) [⟨ways + 2, .compile⟩, ⟨0, .runtime⟩]

theorem edges_waysBack (ways unit : Nat) : (waysBack ways).edges unit =
    if unit = 0 then [⟨1, .compile⟩]
    else if unit ≤ ways then [⟨unit + 1, .compile⟩, ⟨0, .runtime⟩] else [] := by
  induction ways generalizing unit with
  | zero => cases unit <;> simp [waysBack]
  | succ ways inductionHypothesis =>
      rw [waysBack, edges_addEdges, inductionHypothesis (ways + 1), inductionHypothesis unit]
      grind

/-- A unit of the chain, opened with the permission, hands it on before it meets its
own edge to the root, and still holds it then. -/
theorem le_count_waysBack {ways left unit : Nat} {frame : Frame Nat} {before after : Ledger Nat}
    (sweep : Sweep (waysBack ways) frame before after) (position : unit + left = ways + 1)
    (positive : 0 < unit) (pending : frame.pending = strongestFirst ((waysBack ways).edges unit))
    (inChain : frame.inChain = true) (permitted : frame.revisit = some 0)
    (new : ∀ further, unit < further → further ∉ before.links) :
    before.expansions.count 0 + left ≤ after.expansions.count 0 := by
  induction left generalizing unit frame before after with
  | zero => exact sweep.count_le 0
  | succ left inductionHypothesis =>
      have first : frame.pending = [⟨unit + 1, .compile⟩, ⟨0, .runtime⟩] := by
        rw [pending, edges_waysBack, if_neg positive.ne', if_pos (by omega)]
        rfl
      have opens : ∀ edge, (frame.found edge).2 = true := fun edge =>
        Frame.found_snd_iff.mpr (.inl inChain)
      have away : (⟨unit + 1, .compile⟩ : Edge Nat).target ≠ 0 := Nat.succ_ne_zero unit
      obtain ⟨kept, inherited⟩ := Frame.permission_kept (waysBack ways) [⟨0, .runtime⟩]
        permitted away (opens _)
      obtain ⟨middle, inner, rest⟩ := sweep.exists_entered first (.inl (new _ unit.lt_succ_self))
      have deeper := inductionHypothesis inner (by omega) unit.succ_pos rfl (opens _) inherited
        fun further below old => (Ledger.mem_enter.mp old).elim below.ne
          (new further (Nat.lt_of_succ_lt below))
      have again : middle.expansions.count 0 < after.expansions.count 0 :=
        rest.count_lt_of_revisits rfl (Frame.revisits_iff.mpr ⟨kept, opens _⟩)
      simp only [Ledger.enter, List.count_cons_of_ne away] at deeper
      omega

/-- In `waysBack` the bound on the expansions of the root is attained. -/
theorem count_root_waysBack (ways : Nat) :
    ((waysBack ways).closureWalk 0).expansions.count 0 = 1 + ways := by
  apply Nat.le_antisymm
  · have complete : ∀ unit, (waysBack ways).Returns 0 unit → unit ∈ Finset.Icc 1 ways := by
      rintro unit ⟨edge, given, toRoot, _⟩
      rw [edges_waysBack] at given
      grind
    simpa using count_expansions_root_le complete
  · have first : (rootFrame (waysBack ways) 0).pending = [⟨1, .compile⟩] := by
      rw [rootFrame, edges_waysBack, if_pos rfl]
      rfl
    have new : ∀ further, 0 < further → further ∉ (State.start (waysBack ways) 0).ledger.links :=
      fun further positive old => positive.ne' (mem_start_iff.mp old)
    obtain ⟨middle, inner, rest⟩ :=
      (sweep_closureWalk (waysBack ways) 0).exists_entered first (.inl (new 1 Nat.one_pos))
    have deeper := le_count_waysBack inner (Nat.add_comm 1 ways) Nat.one_pos rfl rfl rfl
      fun further below old => (Ledger.mem_enter.mp old).elim below.ne
        (new further (Nat.zero_lt_of_lt below))
    have onward := rest.count_le 0
    have start := count_start (waysBack ways) 0
    simp only [Ledger.enter, List.count_cons_of_ne Nat.one_ne_zero, start] at deeper
    exact deeper.trans onward

/-- The root may be expanded three times, and no number bounds its expansions in all
graphs. -/
theorem expansions_unbounded :
    2 < ((waysBack 2).closureWalk 0).expansions.count 0 ∧
      ¬ ∃ bound, ∀ (graph : BuildGraph Nat) (root : Nat),
        (graph.closureWalk root).expansions.count root ≤ bound := by
  constructor
  · rw [count_root_waysBack]
    decide
  · rintro ⟨bound, bounded⟩
    have exceeded := bounded (waysBack bound) 0
    rw [count_root_waysBack] at exceeded
    omega

end BuildGraph

end BuildImpact
