/-
Module: BuildImpact.Proofs.Route.Reconstruction
Layer: Proofs
Purpose: The way back from a record, whatever the records say.  They may lead in a circle,
  to a unit without a record, or to a deeper one; the way back ends all the same, since it
  goes on only at a record that is less deep.  Where it ends and what it passes determine
  the route that is given.
Imports: BuildImpact.Proofs.Route.Shortest
Trusted boundary: none
Main exports: Route.traceWithin, Route.traceWithin_of_lt, Route.Stops, Route.WayBack,
  Route.routeTo?_eq_some_iff_wayBack, Route.WayBack.length_le, Route.reconstruction_safe
Open obligations: none
-/
import BuildImpact.Proofs.Route.Shortest

namespace BuildImpact

variable {N : Type} [BEq N] [Hashable N]

namespace Route

variable {records : Records N} {target unit parent : N} {record known : Record N}

/-! ### The turns of a way back -/

/-- The way back from a record without a parent is at its end. -/
theorem trace_root (depth : Nat) (route : List N) :
    trace records ⟨depth, none⟩ route = route := by
  rw [trace]

/-- What holds of the records at which a way back ends, and of a record if it holds of the
one at which the way goes on, holds of every record. -/
theorem wayBack_induction (records : Records N) {Holds : Record N → Prop}
    (root : ∀ depth, Holds ⟨depth, none⟩)
    (ends : ∀ depth parent, (¬ ∃ known, records[parent]? = some known ∧ known.depth < depth) →
      Holds ⟨depth, some parent⟩)
    (onward : ∀ depth parent known, records[parent]? = some known → known.depth < depth →
      Holds known → Holds ⟨depth, some parent⟩)
    (record : Record N) : Holds record := by
  obtain ⟨depth, parent⟩ := record
  induction depth using Nat.strong_induction_on generalizing parent with
  | _ depth inductionHypothesis =>
      cases parent with
      | none => exact root depth
      | some parent =>
          by_cases goesOn : ∃ known, records[parent]? = some known ∧ known.depth < depth
          · obtain ⟨known, recorded, less⟩ := goesOn
            exact onward depth parent known recorded less (inductionHypothesis _ less _)
          · exact ends depth parent goesOn

/-- The way back with a limit on the number of turns; none if it is not over by then. -/
def traceWithin (records : Records N) : Nat → Record N → List N → Option (List N)
  | 0, _, _ => none
  | turns + 1, record, route =>
    match record.parent with
    | none => some route
    | some parent =>
      match records[parent]? with
      | none => some (parent :: route)
      | some known =>
        if known.depth < record.depth then traceWithin records turns known (parent :: route)
        else some (parent :: route)

/-- The way back is over after one turn for each depth down to zero, since each turn but the
last goes on at a record that is less deep. -/
theorem traceWithin_of_lt {turns : Nat} (enough : record.depth < turns) (route : List N) :
    traceWithin records turns record route = some (trace records record route) := by
  induction record using wayBack_induction records generalizing turns route with
  | root depth =>
      obtain ⟨turns, rfl⟩ := Nat.exists_eq_succ_of_ne_zero (Nat.ne_zero_of_lt enough)
      rw [traceWithin, trace_root]
  | ends depth parent ends =>
      obtain ⟨turns, rfl⟩ := Nat.exists_eq_succ_of_ne_zero (Nat.ne_zero_of_lt enough)
      rw [traceWithin, trace_ends ends]
      cases recorded : records[parent]? with
      | none => simp only [recorded]
      | some known =>
          have notLess : ¬ known.depth < depth := fun less => ends ⟨known, recorded, less⟩
          simp only [recorded, notLess, if_false]
  | onward depth parent known recorded less inductionHypothesis =>
      obtain ⟨turns, rfl⟩ := Nat.exists_eq_succ_of_ne_zero (Nat.ne_zero_of_lt enough)
      rw [traceWithin, trace_onward recorded less]
      simp only [recorded, less, if_true]
      exact inductionHypothesis (Nat.lt_of_lt_of_le less (Nat.le_of_lt_succ enough)) _

/-! ### What a way back passes -/

/-- Whether a unit has a record that is less deep than that of another one. -/
def Shallower (records : Records N) (unit other : N) : Prop :=
  ∃ record deeper, records[unit]? = some record ∧ records[other]? = some deeper ∧
    record.depth < deeper.depth

instance : IsTrans N (Shallower records) where
  trans := by
    rintro _ _ _ ⟨record, middle, recorded, isMiddle, less⟩ ⟨_, deeper, same, isDeeper, onward⟩
    cases isMiddle.symm.trans same
    exact ⟨record, deeper, recorded, isDeeper, less.trans onward⟩

/-- Where a way back may stop: its first unit has a record without a parent, has no record,
or has one that is not less deep than the record of the unit behind it. -/
inductive Stops (records : Records N) : List N → Prop where
  | parentless {unit : N} {rest : List N} {record : Record N}
      (recorded : records[unit]? = some record) (root : record.parent = none) :
      Stops records (unit :: rest)
  | unrecorded {parent unit : N} {rest : List N} (missing : records[parent]? = none) :
      Stops records (parent :: unit :: rest)
  | notLess {parent unit : N} {rest : List N} {known record : Record N}
      (above : records[parent]? = some known) (recorded : records[unit]? = some record)
      (notLess : ¬ known.depth < record.depth) : Stops records (parent :: unit :: rest)

/-- Whether `route` is the way back from `target`: each unit is the recorded parent of the
one behind it, the depths behind the first unit increase, and the way stops where it may. -/
structure WayBack (records : Records N) (target : N) (route : List N) : Prop where
  arrives : route.getLast? = some target
  parents : route.IsChain fun parent unit =>
    ∃ record, records[unit]? = some record ∧ record.parent = some parent
  deeper : route.tail.Pairwise (Shallower records)
  stops : Stops records route

theorem Stops.ne_nil {route : List N} (stops : Stops records route) : route ≠ [] := by
  cases stops <;> exact List.cons_ne_nil _ _

/-- A way that stops still does so when units are added behind. -/
theorem Stops.append {route : List N} (stops : Stops records route) (back : List N) :
    Stops records (route ++ back) := by
  cases stops with
  | parentless recorded root => exact .parentless recorded root
  | unrecorded missing => exact .unrecorded missing
  | notLess above recorded notLess => exact .notLess above recorded notLess

/-- Where a way stops depends on its first two units. -/
theorem Stops.of_append {route back : List N} (stops : Stops records (route ++ back))
    (two : 2 ≤ route.length) : Stops records route := by
  obtain ⟨parent, unit, rest, rfl⟩ : ∃ parent unit rest, route = parent :: unit :: rest := by
    match route, two with
    | parent :: unit :: rest, _ => exact ⟨parent, unit, rest, rfl⟩
  cases stops with
  | parentless recorded root => exact .parentless recorded root
  | unrecorded missing => exact .unrecorded missing
  | notLess above recorded notLess => exact .notLess above recorded notLess

/-- The way back from a unit is that from its parent, if the record there is less deep. -/
theorem WayBack.snoc {route : List N} (wayBack : WayBack records parent route)
    (recorded : records[unit]? = some record) (isParent : record.parent = some parent)
    (above : records[parent]? = some known) (less : known.depth < record.depth) :
    WayBack records unit (route ++ [unit]) where
  arrives := by simp
  parents := by
    refine wayBack.parents.append (.singleton _) fun last isLast first isFirst => ?_
    obtain rfl : first = unit := (Option.mem_some_iff.mp isFirst).symm
    cases (Option.mem_def.mp isLast).symm.trans wayBack.arrives
    exact ⟨record, recorded, isParent⟩
  deeper := by
    have last {other : N} (isLast : other ∈ route.tail.getLast?) : other = parent := by
      rw [List.getLast?_tail] at isLast
      split at isLast
      · cases isLast
      · exact Option.some.inj ((Option.mem_def.mp isLast).symm.trans wayBack.arrives)
    rw [List.tail_append_of_ne_nil wayBack.stops.ne_nil, ← List.isChain_iff_pairwise]
    refine (List.isChain_iff_pairwise.mpr wayBack.deeper).append (.singleton _) ?_
    intro other isLast first isFirst
    obtain rfl : first = unit := (Option.mem_some_iff.mp isFirst).symm
    exact ⟨known, record, last isLast ▸ above, recorded, less⟩
  stops := wayBack.stops.append [unit]

/-- The way back from a record puts the same units in front of any route: at most one for
each depth down to zero, and with the unit of the record they are its way back. -/
theorem exists_front (records : Records N) (record : Record N) :
    ∃ front, (∀ route, trace records record route = front ++ route) ∧
      front.length ≤ record.depth + 1 ∧
      ∀ unit, records[unit]? = some record → WayBack records unit (front ++ [unit]) := by
  induction record using wayBack_induction records with
  | root depth =>
      exact ⟨[], trace_root depth, Nat.zero_le _, fun unit recorded =>
        ⟨rfl, .singleton _, .nil, .parentless recorded rfl⟩⟩
  | ends depth parent ends =>
      refine ⟨[parent], trace_ends ends, Nat.le_add_left 1 depth, fun unit recorded =>
        ⟨rfl, ?_, List.pairwise_singleton _ _, ?_⟩⟩
      · exact .cons_cons ⟨_, recorded, rfl⟩ (.singleton _)
      · cases above : records[parent]? with
        | none => exact .unrecorded above
        | some known =>
            exact .notLess above recorded fun less => ends ⟨known, above, less⟩
  | onward depth parent known above less inductionHypothesis =>
      obtain ⟨front, traces, short, wayBack⟩ := inductionHypothesis
      refine ⟨front ++ [parent], fun route => ?_, ?_, fun unit recorded => ?_⟩
      · rw [trace_onward above less, traces, List.append_assoc]
        rfl
      · rw [List.length_append]
        exact Nat.succ_le_succ (short.trans less)
      · exact (wayBack parent above).snoc recorded rfl above less

/-! ### The only way back -/

/-- A way back is that of a unit without a parent, stops at the parent, or goes on from the
parent as its way back, at a record that is less deep. -/
theorem WayBack.turn {route : List N} (wayBack : WayBack records unit route) :
    ∃ record, records[unit]? = some record ∧
      ((record.parent = none ∧ route = [unit]) ∨
        ∃ parent, record.parent = some parent ∧
          ((route = [parent, unit] ∧ Stops records [parent, unit]) ∨
            ∃ known earlier, records[parent]? = some known ∧ known.depth < record.depth ∧
              route = earlier ++ [unit] ∧ WayBack records parent earlier)) := by
  obtain ⟨arrives, parents, deeper, stops⟩ := wayBack
  obtain ⟨front, rfl⟩ := List.getLast?_eq_some_iff.mp arrives
  rcases List.eq_nil_or_concat' front with rfl | ⟨earlier, parent, rfl⟩
  · cases stops with
    | parentless recorded root => exact ⟨_, recorded, .inl ⟨root, rfl⟩⟩
  · obtain ⟨parents, _, last⟩ := List.isChain_append.mp parents
    obtain ⟨record, recorded, isParent⟩ := last parent (by simp) unit rfl
    refine ⟨record, recorded, .inr ⟨parent, isParent, ?_⟩⟩
    cases earlier with
    | nil => exact .inl ⟨rfl, stops⟩
    | cons first rest =>
        obtain ⟨deeper, _, less⟩ := List.pairwise_append.mp deeper
        obtain ⟨known, _, above, same, less⟩ := less parent (by simp) unit (by simp)
        cases recorded.symm.trans same
        refine .inr ⟨known, _, above, less, rfl, List.getLast?_concat, parents, deeper, ?_⟩
        exact stops.of_append (by simp)

/-- The way back from a unit is the one that is given. -/
theorem WayBack.eq_trace {route : List N} (wayBack : WayBack records unit route)
    (recorded : records[unit]? = some record) : route = trace records record [unit] := by
  obtain ⟨_, same, turn⟩ := wayBack.turn
  cases recorded.symm.trans same
  clear wayBack same
  induction record using wayBack_induction records generalizing unit route with
  | root depth =>
      obtain ⟨_, rfl⟩ | ⟨_, ⟨⟩, _⟩ := turn
      rw [trace_root]
  | ends depth parent ends =>
      obtain ⟨⟨⟩, _⟩ | ⟨_, ⟨rfl⟩, ⟨rfl, _⟩ | ⟨known, _, above, less, _⟩⟩ := turn
      · rw [trace_ends ends]
      · exact absurd ⟨known, above, less⟩ ends
  | onward depth parent known above less inductionHypothesis =>
      rw [trace_onward above less]
      obtain ⟨⟨⟩, _⟩ | ⟨_, ⟨rfl⟩, ⟨rfl, stops⟩ | ⟨_, earlier, _, _, rfl, wayBack⟩⟩ := turn
      · -- Where the parent is less deep, the way stops there only for want of a parent.
        cases stops with
        | parentless other root =>
            cases above.symm.trans other
            obtain ⟨_, _⟩ := known
            cases root
            rw [trace_root]
        | unrecorded missing => cases above.symm.trans missing
        | notLess other same notLess =>
            cases above.symm.trans other
            cases recorded.symm.trans same
            exact absurd less notLess
      · obtain ⟨_, same, turn⟩ := wayBack.turn
        cases above.symm.trans same
        obtain ⟨front, traces, _⟩ := exists_front records known
        rw [inductionHypothesis above turn, traces, traces, List.append_assoc]
        rfl

/-- The route that is given is the way back, and none is given but for want of a record. -/
theorem routeTo?_eq_some_iff_wayBack {route : List N} :
    routeTo? records target = some route ↔ WayBack records target route := by
  rw [routeTo?, Option.map_eq_some_iff]
  constructor
  · rintro ⟨record, recorded, rfl⟩
    obtain ⟨front, traces, _, wayBack⟩ := exists_front records record
    rw [traces]
    exact wayBack target recorded
  · intro wayBack
    obtain ⟨record, recorded, _⟩ := wayBack.turn
    exact ⟨record, recorded, (wayBack.eq_trace recorded).symm⟩

/-- A way back has a unit for each depth down to zero at most, and one more where it stops. -/
theorem WayBack.length_le {route : List N} (wayBack : WayBack records target route)
    (recorded : records[target]? = some record) : route.length ≤ record.depth + 2 := by
  obtain ⟨front, traces, short, _⟩ := exists_front records record
  rw [wayBack.eq_trace recorded, traces, List.length_append]
  exact Nat.succ_le_succ short

/-- Routes are read safely off any records, also off such as no search makes: those that
lead in a circle, to a unit without a record, or to one that is deeper.  A target has no
route if it has no record.  Otherwise the way back is over after as many turns as the record
is deep and one more, and the route is the one list that ends with the target, in which each
unit is the recorded parent of the one behind it and the depths behind the first unit
increase, and which stops at a record without a parent, at a parent without a record or at a
parent that is not less deep.  It has at most two units more than the target is deep. -/
theorem reconstruction_safe [LawfulBEq N] (records : Records N) (target : N) :
    (routeTo? records target = none ↔ target ∉ records) ∧
    (∀ record, records[target]? = some record → ∀ turns, record.depth < turns →
      traceWithin records turns record [target] = routeTo? records target) ∧
    ∀ route, (routeTo? records target = some route ↔ WayBack records target route) ∧
      (WayBack records target route → route ≠ [] ∧
        ∀ record, records[target]? = some record → route.length ≤ record.depth + 2) := by
  refine ⟨?_, fun record recorded turns enough => ?_, fun route =>
    ⟨routeTo?_eq_some_iff_wayBack, fun wayBack => ⟨wayBack.stops.ne_nil, fun record recorded =>
      wayBack.length_le recorded⟩⟩⟩
  · rw [routeTo?, Option.map_eq_none_iff, Std.HashMap.mem_iff_isSome_getElem?,
      Option.not_isSome_iff_eq_none]
  · rw [traceWithin_of_lt enough, routeTo?, recorded, Option.map_some]

/-- Records of which two lead to each other, and one leads to a unit without a record. -/
def tangled : Records Nat :=
  ((((∅ : Records Nat).insert 0 ⟨3, some 1⟩).insert 1 ⟨1, some 0⟩).insert 2 ⟨4, some 7⟩).insert
    4 ⟨5, some 2⟩

/-- The way back from `1` stops at `0`, which is deeper, after two turns, and that from `4`
by `2` at `7`, which has no record and no route. -/
theorem reconstruction_safe_tangled :
    routeTo? tangled 1 = some [0, 1] ∧
      traceWithin tangled 2 ⟨1, some 0⟩ [1] = routeTo? tangled 1 ∧
      routeTo? tangled 4 = some [7, 2, 4] ∧ routeTo? tangled 7 = none := by
  have deep : tangled[0]? = some ⟨3, some 1⟩ := by
    simp [tangled, Std.HashMap.getElem_insert]
  have shallow : tangled[1]? = some ⟨1, some 0⟩ := by
    simp [tangled, Std.HashMap.getElem_insert]
  have dangling : tangled[2]? = some ⟨4, some 7⟩ := by
    simp [tangled, Std.HashMap.getElem_insert]
  have last : tangled[4]? = some ⟨5, some 2⟩ := by simp [tangled]
  have missing : tangled[7]? = none := by simp [tangled]
  refine ⟨?_, ?_, ?_, ?_⟩
  · refine ((reconstruction_safe tangled 1).2.2 [0, 1]).1.mpr
      ⟨rfl, .cons_cons ⟨_, shallow, rfl⟩ (.singleton _), List.pairwise_singleton _ _, ?_⟩
    exact .notLess deep shallow (by decide)
  · exact (reconstruction_safe tangled 1).2.1 _ shallow 2 Nat.one_lt_two
  · refine ((reconstruction_safe tangled 4).2.2 [7, 2, 4]).1.mpr
      ⟨rfl, .cons_cons ⟨_, dangling, rfl⟩ (.cons_cons ⟨_, last, rfl⟩ (.singleton _)), ?_,
        .unrecorded missing⟩
    exact List.pairwise_pair.mpr ⟨_, _, dangling, last, by decide⟩
  · refine (reconstruction_safe tangled 7).1.mpr fun member => ?_
    rw [Std.HashMap.mem_iff_isSome_getElem?, missing] at member
    cases member

end Route

end BuildImpact
