/-
Module: BuildImpact.Proofs.Depths.Minimal
Layer: Proofs
Purpose: The noted depth of a unit is the least number of hops from the root.  Here a
  unit is marked when an edge first leads to it, so it stands in one layer only, and a
  layer holds nothing but the units that are nearest after its number of hops.
Imports: BuildImpact.Graph.Depths, BuildImpact.Proofs.Layers.Invariant,
  BuildImpact.Proofs.Route.Arrival
Trusted boundary: none
Main exports: Depths.Frontier, Depths.kept_frontier, Depths.getElem?_depths_iff,
  Depths.mem_depths_iff, BuildGraph.depths_exact
Open obligations: none
-/
import BuildImpact.Graph.Depths
import BuildImpact.Proofs.Layers.Invariant
import BuildImpact.Proofs.Route.Arrival

namespace BuildImpact

variable {N : Type} [BEq N] [Hashable N] {graph : BuildGraph N}

open Layers (Arrival)
open Route (Gate Nearest OnLayer exists_nearest nearest_anyEdge_iff)

namespace Depths

variable {root : N}

/-- What holds while the layer at `depth` is visited: `current` is the rest of
it, `edges` what is left of the edges of the unit at hand, and `next` the layer
to come. -/
structure Frontier (graph : BuildGraph N) (root : N) (depth : Nat) (current : List (Arrival N))
    (edges : List (Edge N)) (next : List (Arrival N)) (depths : Std.HashMap N Nat) : Prop where
  arriving : ∀ arrival ∈ current, arrival.depth = depth ∧
    Nearest graph .anyEdge root depth arrival.unit
  leaving : ∀ arrival ∈ next, arrival.depth = depth + 1 ∧
    Nearest graph .anyEdge root (depth + 1) arrival.unit
  opened : ∀ edge ∈ edges, ∃ unit, Nearest graph .anyEdge root depth unit ∧
    edge ∈ graph.edges unit
  /-- What is noted is right, and what is noted ahead is on the layer to come. -/
  noted : ∀ unit known, depths[unit]? = some known → Nearest graph .anyEdge root known unit ∧
    (known ≤ depth ∨ ∃ arrival ∈ next, arrival.unit = unit)
  /-- Everything up to this layer is noted. -/
  nearer : ∀ unit least, Nearest graph .anyEdge root least unit → least ≤ depth → unit ∈ depths
  /-- Every unit of this layer waits for a visit or has led on. -/
  scanned : ∀ unit, Nearest graph .anyEdge root depth unit →
    (∃ arrival ∈ current, arrival.unit = unit) ∨
      ∀ edge ∈ graph.edges unit, edge ∈ edges ∨ edge.target ∈ depths

/-- The walk before its first visit, when not even the root is noted. -/
structure Untouched (root : N) (depth : Nat) (current next : List (Arrival N))
    (depths : Std.HashMap N Nat) : Prop where
  depth_eq : depth = 0
  current_eq : current = [⟨root, none, 0⟩]
  next_eq : next = []
  depths_eq : depths = ∅

variable {depth : Nat} {current next : List (Arrival N)} {edge : Edge N} {edges : List (Edge N)}
  {depths : Std.HashMap N Nat}

/-- Without a gate the layer before a nearest unit has nearest units only. -/
theorem nearest_of_onLayer {unit : N} (onLayer : OnLayer graph .anyEdge root depth unit) :
    Nearest graph .anyEdge root depth unit := by
  rcases onLayer with ⟨rfl, rfl⟩ | nearest
  · exact ⟨nofun, .start, fun other _ _ => Nat.zero_le other⟩
  · exact nearest

variable [LawfulBEq N]

namespace Frontier

omit [LawfulBEq N] in
/-- A unit that an edge of this layer leads to, and that is not noted, is
nearest one hop further. -/
theorem nearest_of_new (frontier : Frontier graph root depth current (edge :: edges) next depths)
    (new : edge.target ∉ depths) : Nearest graph .anyEdge root (depth + 1) edge.target := by
  obtain ⟨unit, nearest, given⟩ := frontier.opened edge List.mem_cons_self
  have arrives := nearest.arrives.hop given (.inr rfl)
  obtain ⟨least, bound, leastNearest⟩ :=
    exists_nearest (Gate.counts_of_pos _ depth.succ_pos) arrives
  have further : ¬ least ≤ depth := fun near => new (frontier.nearer _ least leastNearest near)
  rwa [show depth + 1 = least by omega]

omit [LawfulBEq N] in
/-- An edge to a noted unit is passed. -/
theorem refused (frontier : Frontier graph root depth current (edge :: edges) next depths)
    (old : edge.target ∈ depths) : Frontier graph root depth current edges next depths where
  arriving := frontier.arriving
  leaving := frontier.leaving
  opened := fun other member => frontier.opened other (List.mem_cons_of_mem _ member)
  noted := frontier.noted
  nearer := frontier.nearer
  scanned := by
    intro unit nearest
    apply (frontier.scanned unit nearest).imp_right
    intro led other given
    rcases led other given with member | member
    · rcases List.mem_cons.mp member with rfl | member
      · exact .inr old
      · exact .inl member
    · exact .inr member

/-- An edge to a unit that is not noted puts it on the layer to come. -/
theorem taken (via : Option N)
    (frontier : Frontier graph root depth current (edge :: edges) next depths)
    (new : edge.target ∉ depths) :
    Frontier graph root depth current edges (⟨edge.target, via, depth + 1⟩ :: next)
      (depths.insert edge.target (depth + 1)) where
  arriving := frontier.arriving
  leaving := by
    intro other member
    rcases List.mem_cons.mp member with rfl | member
    · exact ⟨rfl, frontier.nearest_of_new new⟩
    · exact frontier.leaving other member
  opened := fun other member => frontier.opened other (List.mem_cons_of_mem _ member)
  noted := by
    intro unit known found
    rw [Std.HashMap.getElem?_insert] at found
    split at found
    · rename_i same
      cases eq_of_beq same
      cases found
      exact ⟨frontier.nearest_of_new new, .inr ⟨_, List.mem_cons_self, rfl⟩⟩
    · obtain ⟨nearest, bound⟩ := frontier.noted unit known found
      exact ⟨nearest, bound.imp_right fun ⟨other, member, same⟩ =>
        ⟨other, List.mem_cons_of_mem _ member, same⟩⟩
  nearer := fun unit least nearest bound =>
    Std.HashMap.mem_insert.mpr (.inr (frontier.nearer unit least nearest bound))
  scanned := by
    intro unit nearest
    apply (frontier.scanned unit nearest).imp_right
    intro led other given
    rcases led other given with member | member
    · rcases List.mem_cons.mp member with rfl | member
      · exact .inr Std.HashMap.mem_insert_self
      · exact .inl member
    · exact .inr (Std.HashMap.mem_insert.mpr (.inr member))

/-- Looking at all the edges of the unit at hand keeps the frontier. -/
theorem follow {arrival : Arrival N} (atDepth : arrival.depth = depth)
    (frontier : Frontier graph root depth current edges next depths) :
    Frontier graph root depth current []
      (Layers.follow recorder arrival edges next depths).1
      (Layers.follow recorder arrival edges next depths).2 := by
  refine Layers.follow_induction
    (fun edges next depths => Frontier graph root depth current edges next depths) ?_ ?_ frontier
  · intro edge edges next before after decided frontier
    simp only [recorder] at decided
    split at decided
    · cases decided
    · rename_i new
      cases decided
      rw [atDepth]
      exact frontier.taken _ (mt Std.HashMap.mem_iff_contains.mp new)
  · intro edge edges next before after decided frontier
    simp only [recorder] at decided
    split at decided
    · rename_i old
      cases decided
      exact frontier.refused (Std.HashMap.mem_iff_contains.mpr old)
    · cases decided

/-- The unit at hand has its edges looked at.  It has been noted before. -/
theorem arrive {arrival : Arrival N} {waiting : List (Arrival N)}
    (frontier : Frontier graph root depth (arrival :: waiting) [] next depths) :
    Frontier graph root depth waiting (graph.edges arrival.unit) next
      (depths.insertIfNew arrival.unit arrival.depth) := by
  obtain ⟨_, nearest⟩ := frontier.arriving arrival List.mem_cons_self
  have old := frontier.nearer arrival.unit depth nearest le_rfl
  have kept : ∀ unit ∈ depths, unit ∈ depths.insertIfNew arrival.unit arrival.depth :=
    fun unit member => Std.HashMap.mem_insertIfNew.mpr (.inr member)
  refine ⟨fun other member => frontier.arriving other (List.mem_cons_of_mem _ member),
    frontier.leaving, fun edge given => ⟨arrival.unit, nearest, given⟩, ?_, ?_, ?_⟩
  · intro unit known found
    rw [Std.HashMap.getElem?_insertIfNew] at found
    simp only [old, not_true_eq_false, and_false, if_false] at found
    exact frontier.noted unit known found
  · exact fun unit least near bound => kept unit (frontier.nearer unit least near bound)
  · intro unit near
    rcases frontier.scanned unit near with ⟨other, member, rfl⟩ | led
    · rcases List.mem_cons.mp member with rfl | member
      · exact .inr fun edge given => .inl given
      · exact .inl ⟨other, member, rfl⟩
    · refine .inr fun edge given => ?_
      rcases led edge given with member | member
      · cases member
      · exact .inr (kept edge.target member)

/-- The change to the next layer keeps the frontier. -/
theorem change (frontier : Frontier graph root depth [] [] next depths) :
    Frontier graph root (depth + 1) next.reverse [] [] depths := by
  have nearer : ∀ unit least, Nearest graph .anyEdge root least unit → least ≤ depth + 1 →
      unit ∈ depths := by
    intro unit least nearest bound
    rcases Nat.le_succ_iff.mp bound with near | rfl
    · exact frontier.nearer unit least nearest near
    · obtain ⟨earlier, onLayer, edge, given, _, rfl⟩ := nearest.predecessor
      rcases frontier.scanned earlier (nearest_of_onLayer onLayer) with ⟨_, member, _⟩ | led
      · cases member
      · exact (led edge given).resolve_left List.not_mem_nil
  refine ⟨fun other member => frontier.leaving other (List.mem_reverse.mp member),
    fun other member => (List.not_mem_nil member).elim,
    fun edge member => (List.not_mem_nil member).elim, ?_, nearer, ?_⟩
  · intro unit known found
    obtain ⟨nearest, near | ⟨other, member, rfl⟩⟩ := frontier.noted unit known found
    · exact ⟨nearest, .inl (Nat.le_succ_of_le near)⟩
    · exact ⟨nearest, .inl (nearest.unique (frontier.leaving other member).2).le⟩
  · intro unit nearest
    have found := Std.HashMap.getElem?_eq_some_getElem (nearer unit _ nearest le_rfl)
    obtain ⟨isNearest, near | ⟨other, member, same⟩⟩ := frontier.noted unit _ found
    · have same := isNearest.unique nearest
      omega
    · exact .inl ⟨other, List.mem_reverse.mpr member, same⟩

end Frontier

/-- The root at its visit: it is noted, and its edges are still to be looked at. -/
theorem frontier_root (graph : BuildGraph N) (root : N) :
    Frontier graph root 0 [] (graph.edges root) []
      ((∅ : Std.HashMap N Nat).insertIfNew root 0) := by
  have nearest : Nearest graph .anyEdge root 0 root := nearest_of_onLayer (.inl ⟨rfl, rfl⟩)
  refine ⟨fun other member => (List.not_mem_nil member).elim,
    fun other member => (List.not_mem_nil member).elim,
    fun edge given => ⟨root, nearest, given⟩, ?_, ?_, ?_⟩
  · intro unit known found
    simp only [Std.HashMap.getElem?_insertIfNew, Std.HashMap.getElem?_empty] at found
    split at found
    · rename_i same
      cases eq_of_beq same.1
      cases found
      exact ⟨nearest, .inl le_rfl⟩
    · cases found
  · intro unit least near bound
    cases Nat.le_zero.mp bound
    cases near.arrives.eq_source
    exact Std.HashMap.mem_insertIfNew_self
  · intro unit near
    cases near.arrives.eq_source
    exact .inr fun edge given => .inl given

theorem kept_frontier : Layers.Kept graph recorder fun depth current next depths =>
    Untouched root depth current next depths ∨
      Frontier graph root depth current [] next depths := by
  refine ⟨?_, ?_⟩
  · rintro depth arrival waiting next depths (⟨rfl, isRoot, rfl, rfl⟩ | frontier)
    · cases isRoot
      exact .inr ((frontier_root graph root).follow rfl)
    · have atDepth := (frontier.arriving arrival List.mem_cons_self).1
      exact .inr (frontier.arrive.follow atDepth)
  · rintro depth next depths (⟨_, isRoot, _, _⟩ | frontier)
    · cases isRoot
    · exact .inr frontier.change

/-- No layer as deep as the budget has an arrival, which would be further away than
the graph has edges. -/
theorem depth_lt_budget {arrival : Arrival N} {waiting : List (Arrival N)}
    (holds : Untouched root depth (arrival :: waiting) [] depths ∨
      Frontier graph root depth (arrival :: waiting) [] [] depths) :
    depth < Layers.budget graph := by
  rcases holds with ⟨rfl, _, _, _⟩ | frontier
  · exact Nat.succ_pos _
  · have bound := (frontier.arriving arrival List.mem_cons_self).2.le_edgeCount
    exact Nat.lt_add_right 2 (Nat.lt_succ_of_le bound)

omit [LawfulBEq N] in
/-- Nothing is touched in a walk that has not begun. -/
theorem untouched_start (root : N) : Untouched root 0 [⟨root, none, 0⟩] [] ∅ :=
  ⟨rfl, rfl, rfl, rfl⟩

/-- The walk ends with nothing left to visit. -/
theorem exists_frontier_depths (graph : BuildGraph N) (root : N) :
    ∃ depth, Frontier graph root depth [] [] [] (graph.depths root) := by
  have ends : ∃ reached, Untouched root reached [] [] (graph.depths root) ∨
      Frontier graph root reached [] [] [] (graph.depths root) :=
    kept_frontier.walk (.inl (untouched_start root)) depth_lt_budget
  obtain ⟨reached, ⟨_, isRoot, _, _⟩ | frontier⟩ := ends
  · cases isRoot
  · exact ⟨reached, frontier⟩

/-- Exactly the units in reach are noted, with the least number of hops. -/
theorem getElem?_depths_iff {unit : N} :
    (graph.depths root)[unit]? = some depth ↔ Nearest graph .anyEdge root depth unit := by
  obtain ⟨reached, frontier⟩ := exists_frontier_depths graph root
  constructor
  · exact fun found => (frontier.noted unit depth found).1
  · intro nearest
    have member : unit ∈ graph.depths root := by
      rcases kept_frontier.beyond (.inr frontier) depth with ⟨_, isRoot, _, _⟩ | beyond
      · cases isRoot
      · exact beyond.nearer unit depth nearest (Nat.le_add_left _ _)
    have found := Std.HashMap.getElem?_eq_some_getElem member
    rw [found, (frontier.noted unit _ found).1.unique nearest]

/-- The noted depth of a unit is the least length of a walk to it. -/
theorem getElem?_depths_iff_isLeast {unit : N} :
    (graph.depths root)[unit]? = some depth ↔
      IsLeast {hops | ∃ edges, Walk graph root edges unit ∧ edges.length = hops} depth :=
  getElem?_depths_iff.trans nearest_anyEdge_iff

/-- Everything in reach has a depth, and nothing else. -/
theorem mem_depths_iff {unit : N} : unit ∈ graph.depths root ↔ graph.Reaches root unit := by
  constructor
  · intro member
    have noted := Std.HashMap.getElem?_eq_some_getElem member
    obtain ⟨⟨edges, walk, _⟩, _⟩ := getElem?_depths_iff_isLeast.mp noted
    exact ⟨edges, walk⟩
  · rintro ⟨edges, walk⟩
    have counts : Gate.anyEdge.Counts edges.length := nofun
    obtain ⟨least, _, nearest⟩ :=
      exists_nearest counts (Route.arrives_anyEdge_iff.mpr ⟨edges, walk, rfl⟩)
    exact (Std.HashMap.getElem?_eq_some_iff.mp (getElem?_depths_iff.mpr nearest)).fst

/-- Two graphs in which the same walks lead from the root have the same depths. -/
theorem getElem?_depths_congr {other : BuildGraph N}
    (same : ∀ unit edges, Walk other root edges unit ↔ Walk graph root edges unit) (unit : N) :
    (other.depths root)[unit]? = (graph.depths root)[unit]? := by
  refine Option.ext fun depth => ?_
  simp only [getElem?_depths_iff_isLeast, same]

end Depths

namespace BuildGraph

variable [LawfulBEq N]

/-- The depths are exact.  Those units have one that are in reach of the root, the root
itself with depth 0 even if the graph does not name it; the depth is the least number
of edges of a walk.  Other graphs with the same edges, in another order or repeated
otherwise, give the same depths. -/
theorem depths_exact (graph : BuildGraph N) (root : N) :
    (∀ unit, unit ∈ graph.depths root ↔ graph.Reaches root unit) ∧
    (graph.depths root)[root]? = some 0 ∧
    (∀ (unit : N) (depth : Nat), (graph.depths root)[unit]? = some depth ↔
      IsLeast {hops | ∃ edges, Walk graph root edges unit ∧ edges.length = hops} depth) ∧
    ∀ other : BuildGraph N,
      (∀ unit edge, edge ∈ other.edges unit ↔ edge ∈ graph.edges unit) →
      ∀ unit : N, (other.depths root)[unit]? = (graph.depths root)[unit]? := by
  refine ⟨fun _ => Depths.mem_depths_iff, ?_, fun _ _ => Depths.getElem?_depths_iff_isLeast, ?_⟩
  · exact Depths.getElem?_depths_iff_isLeast.mpr
      ⟨⟨[], .stay root, rfl⟩, fun hops _ => Nat.zero_le hops⟩
  · intro other same
    apply Depths.getElem?_depths_congr
    intro unit edges
    exact ⟨fun walk => walk.imp fun unit edge => (same unit edge).mp,
      fun walk => walk.imp fun unit edge => (same unit edge).mpr⟩

/-- A graph in which the direct edge from `0` to `1` comes last and a cycle leads back
to `0`. -/
def roundabout : BuildGraph Nat :=
  ofList [(0, [⟨2, .runtime⟩, ⟨1, .compile⟩]), (2, [⟨1, .reexport⟩]),
    (1, [⟨0, .runtime⟩, ⟨3, .runtime⟩])]

/-- The same edges with those of each unit the other way round. -/
def roundaboutBack : BuildGraph Nat :=
  ofList [(0, [⟨1, .compile⟩, ⟨2, .runtime⟩]), (2, [⟨1, .reexport⟩]),
    (1, [⟨3, .runtime⟩, ⟨0, .runtime⟩])]

/-- Unit `3` is in reach and has the same depth in one order as in the other; a unit
that the graph does not name has depth 0 from itself. -/
theorem depths_exact_roundabout :
    (∀ unit edge, edge ∈ roundaboutBack.edges unit ↔ edge ∈ roundabout.edges unit) ∧
      (roundaboutBack.depths 0)[3]? = (roundabout.depths 0)[3]? ∧
      3 ∈ roundabout.depths 0 ∧ (roundabout.depths 9)[9]? = some 0 := by
  have same : ∀ unit edge, edge ∈ roundaboutBack.edges unit ↔ edge ∈ roundabout.edges unit := by
    intro unit edge
    simp only [roundaboutBack, roundabout, edges_ofList]
    grind
  have first : (⟨1, .compile⟩ : Edge Nat) ∈ roundabout.edges 0 := by simp [roundabout, ofList]
  have second : (⟨3, .runtime⟩ : Edge Nat) ∈ roundabout.edges 1 := by simp [roundabout, ofList]
  obtain ⟨inReach, _, _, anyOrder⟩ := depths_exact roundabout 0
  refine ⟨same, anyOrder roundaboutBack same 3, ?_, (depths_exact roundabout 9).2.1⟩
  exact (inReach 3).mpr ((Reaches.of_mem first).trans (.of_mem second))

end BuildGraph

end BuildImpact
