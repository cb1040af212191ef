/-
Module: BuildImpact.Proofs.Route.Arrival
Layer: Proofs
Purpose: The walks that a search may take, by their number of hops, and the least such
  number for each unit.  The gate decides which edges may be first, and with a gate the
  walk without hops does not count.  A unit that is nearest after some hops has a
  predecessor one hop nearer, so no unit is further away than there are targets.
Imports: Mathlib.Order.Bounds.Defs, BuildImpact.Graph.Route,
  BuildImpact.Proofs.Graph.Edges, BuildImpact.Proofs.Graph.Walk
Trusted boundary: none
Main exports: Route.Arrives, Route.Nearest, Route.arrives_iff_walk,
  Route.arrives_anyEdge_iff, Route.nearest_anyEdge_iff, Route.arrives_compileEdge_iff,
  Route.exists_nearest, Route.Nearest.predecessor, Route.Nearest.le_edgeCount
Open obligations: none
-/
import Mathlib.Order.Bounds.Defs
import BuildImpact.Graph.Route
import BuildImpact.Proofs.Graph.Edges
import BuildImpact.Proofs.Graph.Walk

namespace BuildImpact

variable {N : Type} [BEq N] [Hashable N] {graph : BuildGraph N}

namespace Route

/-- `Arrives graph gate source depth unit`: a walk of `depth` hops leads from
`source` to `unit`, and `gate` admits the first of them. -/
inductive Arrives (graph : BuildGraph N) (gate : Gate) (source : N) : Nat → N → Prop where
  | start : Arrives graph gate source 0 source
  | hop {depth : Nat} {unit : N} {edge : Edge N}
      (earlier : Arrives graph gate source depth unit) (given : edge ∈ graph.edges unit)
      (admitted : 0 < depth ∨ gate.admits edge.kind = true) :
      Arrives graph gate source (depth + 1) edge.target

/-- Whether walks of this length count: behind a gate a walk has a first hop. -/
def Gate.Counts (gate : Gate) (depth : Nat) : Prop := gate = .compileEdge → 0 < depth

/-- Whether a walk along these edges begins as the gate demands. -/
def Gate.Opens (gate : Gate) (edges : List (Edge N)) : Prop :=
  ∀ first ∈ edges.head?, gate.admits first.kind = true

/-- `depth` is the least number of hops of a walk that counts. -/
structure Nearest (graph : BuildGraph N) (gate : Gate) (source : N) (depth : Nat) (unit : N) :
    Prop where
  counts : gate.Counts depth
  arrives : Arrives graph gate source depth unit
  least : ∀ other, gate.Counts other → Arrives graph gate source other unit → depth ≤ other

/-- The units whose edges lead on from a layer: the source from the first one,
and the nearest units from each. -/
def OnLayer (graph : BuildGraph N) (gate : Gate) (source : N) (depth : Nat) (unit : N) : Prop :=
  (depth = 0 ∧ unit = source) ∨ Nearest graph gate source depth unit

variable {gate : Gate} {source unit : N} {depth : Nat}

theorem Gate.counts_of_pos (gate : Gate) (positive : 0 < depth) : gate.Counts depth :=
  fun _ => positive

/-- Without hops one arrives at the source alone. -/
theorem Arrives.eq_source (arrives : Arrives graph gate source 0 unit) : unit = source := by
  cases arrives
  rfl

/-- Where a walk that counts arrives, some number of hops is the least. -/
theorem exists_nearest (counts : gate.Counts depth)
    (arrives : Arrives graph gate source depth unit) :
    ∃ least ≤ depth, Nearest graph gate source least unit := by
  classical
  have some : ∃ depth, gate.Counts depth ∧ Arrives graph gate source depth unit :=
    ⟨depth, counts, arrives⟩
  refine ⟨Nat.find some, Nat.find_min' some ⟨counts, arrives⟩, ?_⟩
  obtain ⟨leastCounts, leastArrives⟩ := Nat.find_spec some
  exact ⟨leastCounts, leastArrives, fun other counts arrives =>
    Nat.find_min' some ⟨counts, arrives⟩⟩

/-- The least number of hops is one number. -/
theorem Nearest.unique {other : Nat} (one : Nearest graph gate source depth unit)
    (two : Nearest graph gate source other unit) : depth = other :=
  Nat.le_antisymm (one.least other two.counts two.arrives)
    (two.least depth one.counts one.arrives)

/-- The number of hops of a nearest unit, as a least element. -/
theorem Nearest.isLeast (nearest : Nearest graph gate source depth unit) :
    IsLeast {hops | gate.Counts hops ∧ Arrives graph gate source hops unit} depth :=
  ⟨⟨nearest.counts, nearest.arrives⟩, fun other arrival => nearest.least other arrival.1 arrival.2⟩

/-- A walk of some hops goes on along any edges. -/
theorem Arrives.append {target : N} {edges : List (Edge N)}
    (arrives : Arrives graph gate source depth unit) (positive : 0 < depth)
    (walk : Walk graph unit edges target) :
    Arrives graph gate source (depth + edges.length) target := by
  induction walk generalizing depth with
  | stay => exact arrives
  | hop given _ inductionHypothesis =>
      have onward := inductionHypothesis (arrives.hop given (.inl positive)) depth.succ_pos
      rwa [Nat.add_right_comm] at onward

omit [BEq N] [Hashable N] in
/-- A walk that is prolonged has the same first edge, unless it had none. -/
theorem Gate.Opens.snoc {edges : List (Edge N)} {edge : Edge N} (opens : gate.Opens edges)
    (admitted : 0 < edges.length ∨ gate.admits edge.kind = true) :
    gate.Opens (edges ++ [edge]) := by
  intro first member
  cases edges with
  | nil =>
      cases member
      exact admitted.resolve_left (Nat.lt_irrefl 0)
  | cons _ _ => exact opens first member

/-- Arriving after some hops is being led there by a walk of that length whose
first edge is admitted. -/
theorem arrives_iff_walk :
    Arrives graph gate source depth unit ↔
      ∃ edges, Walk graph source edges unit ∧ gate.Opens edges ∧ edges.length = depth := by
  constructor
  · intro arrives
    induction arrives with
    | start => exact ⟨[], .stay source, (fun first member => by cases member), rfl⟩
    | @hop depth unit edge _ given admitted inductionHypothesis =>
        obtain ⟨edges, walk, opens, rfl⟩ := inductionHypothesis
        exact ⟨edges ++ [edge], walk.snoc given, opens.snoc admitted, List.length_append⟩
  · rintro ⟨edges, walk, opens, rfl⟩
    cases walk with
    | stay => exact .start
    | hop given onward =>
        have first : Arrives graph gate source (0 + 1) _ := .hop .start given (.inr (opens _ rfl))
        have arrives := first.append Nat.one_pos onward
        rwa [Nat.zero_add, Nat.add_comm] at arrives

/-- Without a gate every walk counts. -/
theorem arrives_anyEdge_iff :
    Arrives graph .anyEdge source depth unit ↔
      ∃ edges, Walk graph source edges unit ∧ edges.length = depth := by
  rw [arrives_iff_walk]
  refine exists_congr fun edges => and_congr_right fun _ => ?_
  exact and_iff_right fun _ _ => rfl

/-- Without a gate the least number of hops is the least length of a walk. -/
theorem nearest_anyEdge_iff :
    Nearest graph .anyEdge source depth unit ↔
      IsLeast {hops | ∃ edges, Walk graph source edges unit ∧ edges.length = hops} depth := by
  constructor
  · intro nearest
    refine ⟨arrives_anyEdge_iff.mp nearest.arrives, fun hops walk => ?_⟩
    exact nearest.least hops nofun (arrives_anyEdge_iff.mpr walk)
  · rintro ⟨walk, least⟩
    refine ⟨nofun, arrives_anyEdge_iff.mpr walk, fun other _ arrives => ?_⟩
    exact least (arrives_anyEdge_iff.mp arrives)

/-- Behind the gate those walks count that have a first edge, of the compile kind. -/
theorem arrives_compileEdge_iff :
    Gate.compileEdge.Counts depth ∧ Arrives graph .compileEdge source depth unit ↔
      ∃ first edges, first.kind = .compile ∧ Walk graph source (first :: edges) unit ∧
        edges.length + 1 = depth := by
  rw [arrives_iff_walk]
  constructor
  · rintro ⟨counts, edges, walk, opens, rfl⟩
    cases edges with
    | nil => exact absurd (counts rfl) (Nat.lt_irrefl 0)
    | cons first edges =>
        exact ⟨first, edges, eq_of_beq (opens first rfl), walk, rfl⟩
  · rintro ⟨first, edges, compile, walk, rfl⟩
    refine ⟨fun _ => Nat.succ_pos _, first :: edges, walk, ?_, rfl⟩
    rintro _ ⟨⟩
    exact beq_iff_eq.mpr compile

theorem OnLayer.arrives (onLayer : OnLayer graph gate source depth unit) :
    Arrives graph gate source depth unit := by
  rcases onLayer with ⟨rfl, rfl⟩ | nearest
  · exact .start
  · exact nearest.arrives

/-- A unit from which an edge leads to a nearest unit is on the layer before. -/
theorem Arrives.onLayer {edge : Edge N} (earlier : Arrives graph gate source depth unit)
    (given : edge ∈ graph.edges unit)
    (nearest : Nearest graph gate source (depth + 1) edge.target) :
    OnLayer graph gate source depth unit := by
  cases depth with
  | zero => exact .inl ⟨rfl, earlier.eq_source⟩
  | succ depth =>
      refine .inr ⟨gate.counts_of_pos depth.succ_pos, earlier, fun other counts arrives => ?_⟩
      have admitted : 0 < other ∨ gate.admits edge.kind = true := by
        cases gate with
        | anyEdge => exact .inr rfl
        | compileEdge => exact .inl (counts rfl)
      have longer := nearest.least (other + 1) (gate.counts_of_pos other.succ_pos)
        (arrives.hop given admitted)
      omega

/-- A nearest unit is led to by an edge from the layer before. -/
theorem Nearest.predecessor (nearest : Nearest graph gate source (depth + 1) unit) :
    ∃ earlier, OnLayer graph gate source depth earlier ∧ ∃ edge ∈ graph.edges earlier,
      (0 < depth ∨ gate.admits edge.kind = true) ∧ edge.target = unit := by
  cases arriving : nearest.arrives with
  | hop earlier given admitted =>
      exact ⟨_, earlier.onLayer given nearest, _, given, admitted, rfl⟩

variable [LawfulBEq N]

/-- Units of the layers up to a nearest unit are different targets. -/
theorem Nearest.exists_targets (nearest : Nearest graph gate source depth unit) :
    ∃ units ⊆ graph.targets, units.card = depth ∧
      ∀ target ∈ units, ∃ shallow ≤ depth, Nearest graph gate source shallow target := by
  classical
  induction depth generalizing unit with
  | zero => exact ⟨∅, Finset.empty_subset _, rfl, fun _ member => by cases member⟩
  | succ depth inductionHypothesis =>
      obtain ⟨earlier, onLayer, edge, given, _, rfl⟩ := nearest.predecessor
      have isTarget := BuildGraph.target_mem_targets given
      have before : ∃ units ⊆ graph.targets, units.card = depth ∧
          ∀ target ∈ units, ∃ shallow ≤ depth, Nearest graph gate source shallow target := by
        rcases onLayer with ⟨rfl, _⟩ | nearer
        · exact ⟨∅, Finset.empty_subset _, rfl, fun _ member => by cases member⟩
        · exact inductionHypothesis nearer
      obtain ⟨units, within, card, shallow⟩ := before
      have new : edge.target ∉ units := by
        intro member
        obtain ⟨other, bound, nearer⟩ := shallow _ member
        have same := nearer.unique nearest
        omega
      refine ⟨insert edge.target units, Finset.insert_subset isTarget within, ?_, ?_⟩
      · rw [Finset.card_insert_of_notMem new, card]
      · intro target member
        rcases Finset.mem_insert.mp member with rfl | member
        · exact ⟨depth + 1, le_rfl, nearest⟩
        · obtain ⟨other, bound, nearer⟩ := shallow target member
          exact ⟨other, by omega, nearer⟩

/-- No unit is further away than the graph has edges. -/
theorem Nearest.le_edgeCount (nearest : Nearest graph gate source depth unit) :
    depth ≤ graph.edgeCount := by
  obtain ⟨units, within, card, _⟩ := nearest.exists_targets
  calc depth = units.card := card.symm
    _ ≤ graph.targets.card := Finset.card_le_card within
    _ ≤ graph.edgeCount := BuildGraph.card_targets_le

end Route

end BuildImpact
