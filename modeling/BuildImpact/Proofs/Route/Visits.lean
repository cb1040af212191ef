/-
Module: BuildImpact.Proofs.Route.Visits
Layer: Proofs
Purpose: How often a search for routes visits a unit.  A unit is marked when it has its
  turn, and not when it is put on a layer, so it stands there once for each edge that
  leads to it from an entry of the layer before.  On its nearest layer it is visited
  once for each shortest walk to it, and otherwise only on the layer after that one.
  The number of shortest walks can grow by a factor with every layer.
Imports: Mathlib.Tactic.Linarith, Mathlib.Tactic.Ring, BuildImpact.Proofs.Layers.Log,
  BuildImpact.Proofs.Route.Search
Trusted boundary: none
Main exports: Route.ends, Route.mem_ends_iff, Route.Tally, Route.kept_tally,
  Route.countP_visits, Route.Layered, Route.nearest_of_visit, Route.visits_of_search,
  Route.two_pow_le_visits
Open obligations: none
-/
import Mathlib.Tactic.Linarith
import Mathlib.Tactic.Ring
import BuildImpact.Proofs.Layers.Log
import BuildImpact.Proofs.Route.Search

namespace BuildImpact

variable {N : Type} [BEq N] [Hashable N] {graph : BuildGraph N}

open Layers (Arrival)

namespace Route

variable {gate : Gate} {source unit : N} {depth : Nat}

/-! ### Walks, one by one -/

/-- The targets of the edges that lead on from a unit of a layer, one entry for each
edge. -/
def leads (graph : BuildGraph N) (gate : Gate) (depth : Nat) (unit : N) : List N :=
  ((graph.edges unit).filter fun edge => decide (0 < depth) || gate.admits edge.kind).map (·.target)

/-- The ends of the walks from `source` with so many hops, of which `gate` admits the
first: one entry for each walk. -/
def ends (graph : BuildGraph N) (gate : Gate) (source : N) : Nat → List N
  | 0 => [source]
  | depth + 1 => (ends graph gate source depth).flatMap (leads graph gate depth)

theorem mem_leads_iff {target : N} :
    target ∈ leads graph gate depth unit ↔
      ∃ edge ∈ graph.edges unit, (0 < depth ∨ gate.admits edge.kind = true) ∧
        edge.target = target := by
  simp only [leads, List.mem_map, List.mem_filter, Bool.or_eq_true, decide_eq_true_eq, and_assoc]

/-- The ends are the units that one arrives at. -/
theorem mem_ends_iff :
    unit ∈ ends graph gate source depth ↔ Arrives graph gate source depth unit := by
  induction depth generalizing unit with
  | zero =>
      rw [ends, List.mem_singleton]
      exact ⟨fun isSource => isSource ▸ .start, Arrives.eq_source⟩
  | succ depth inductionHypothesis =>
      simp only [ends, List.mem_flatMap, mem_leads_iff, inductionHypothesis]
      constructor
      · rintro ⟨earlier, arrives, edge, given, admitted, rfl⟩
        exact arrives.hop given admitted
      · intro arrives
        cases arrives with
        | hop earlier given admitted => exact ⟨_, earlier, _, given, admitted, rfl⟩

omit [Hashable N] in
/-- How often a list leads to a unit depends only on those entries that do. -/
theorem count_flatMap_filter [LawfulBEq N] {onward : N → List N} {passes : N → Bool}
    (all : ∀ earlier, unit ∈ onward earlier → passes earlier = true) (units : List N) :
    ((units.filter passes).flatMap onward).count unit = (units.flatMap onward).count unit := by
  induction units with
  | nil => rfl
  | cons earlier units inductionHypothesis =>
      rw [List.flatMap_cons, List.count_append, ← inductionHypothesis, List.filter_cons]
      split
      · rw [List.flatMap_cons, List.count_append]
      · rename_i refused
        have none : unit ∉ onward earlier := fun member => refused (all earlier member)
        rw [List.count_eq_zero_of_not_mem none, Nat.zero_add]

omit [Hashable N] in
/-- Two lists lead to a unit equally often when they hold the units that lead there
equally often. -/
theorem count_flatMap_congr [LawfulBEq N] {onward : N → List N} {first second : List N}
    (same : ∀ earlier, unit ∈ onward earlier → first.count earlier = second.count earlier) :
    (first.flatMap onward).count unit = (second.flatMap onward).count unit := by
  have perm : (first.filter fun earlier => unit ∈ onward earlier).Perm
      (second.filter fun earlier => unit ∈ onward earlier) := by
    rw [List.perm_iff_count]
    intro earlier
    by_cases leads : unit ∈ onward earlier
    · have kept : ∀ units : List N,
          (units.filter fun earlier => unit ∈ onward earlier).count earlier = units.count earlier :=
        fun units => List.count_filter (decide_eq_true leads)
      rw [kept, kept, same earlier leads]
    · have none : ∀ units : List N, earlier ∉ units.filter fun earlier => unit ∈ onward earlier :=
        fun units member => leads (of_decide_eq_true (List.mem_filter.mp member).2)
      rw [List.count_eq_zero_of_not_mem (none _), List.count_eq_zero_of_not_mem (none _)]
  rw [← count_flatMap_filter (fun _ => decide_eq_true) first,
    ← count_flatMap_filter (fun _ => decide_eq_true) second, (perm.flatMap_right onward).count_eq]

/-! ### The tally of a search -/

/-- Whether an arrival brings this unit at this depth. -/
def isAt (unit : N) (depth : Nat) (arrival : Arrival N) : Bool :=
  arrival.unit == unit && arrival.depth == depth

/-- What holds of the visits while the layer at `depth` is visited: the memory has
the records and the log of the visits before. -/
structure Tally (graph : BuildGraph N) (gate : Gate) (source : N) (depth : Nat)
    (current next : List (Arrival N)) (memory : Records N × List (Arrival N)) : Prop where
  frontier : Frontier graph gate source depth current next memory.1
  past : ∀ arrival ∈ memory.2, Justified graph gate source arrival.depth arrival ∧
    arrival.depth ≤ depth ∧
    ∀ least, Nearest graph gate source least arrival.unit → arrival.depth ≤ least + 1
  /-- On the layers up to this one, nearest units stand once for each walk to them. -/
  counted : ∀ unit least, Nearest graph gate source least unit → least ≤ depth →
    (memory.2 ++ current).countP (isAt unit least) = (ends graph gate source least).count unit
  /-- On the layer to come they do so as soon as this layer is visited. -/
  onward : ∀ unit, Nearest graph gate source (depth + 1) unit →
    next.countP (isAt unit (depth + 1)) +
        (current.flatMap fun arrival => leads graph gate depth arrival.unit).count unit =
      (ends graph gate source (depth + 1)).count unit

variable [LawfulBEq N] {arrival : Arrival N} {waiting next : List (Arrival N)}
  {records : Records N} {log : List (Arrival N)}

/-- A visit puts a unit without a record on the next layer once for each edge to it. -/
theorem countP_led (new : unit ∉ records) (atDepth : arrival.depth = depth) :
    ((((graph.edges arrival.unit).filter (followed gate records arrival)).map fun edge =>
        (⟨edge.target, some arrival.unit, arrival.depth + 1⟩ : Arrival N)).reverse.countP
          (isAt unit (depth + 1))) =
      (leads graph gate depth arrival.unit).count unit := by
  subst atDepth
  rw [List.countP_reverse, List.countP_map, List.countP_filter, leads, List.count,
    List.countP_map, List.countP_filter]
  refine List.countP_congr fun edge _ => ?_
  simp only [isAt, Function.comp_apply, beq_self_eq_true, Bool.and_true, Bool.and_eq_true,
    beq_iff_eq, followed_iff, Bool.or_eq_true, decide_eq_true_eq]
  refine and_congr_right fun isUnit => and_iff_right ?_
  rwa [isUnit]

omit [Hashable N] in
/-- On a layer of arrivals at one depth, units are counted there or nowhere. -/
theorem countP_isAt (unit : N) {arrivals : List (Arrival N)}
    (level : ∀ arrival ∈ arrivals, arrival.depth = depth) (other : Nat) :
    arrivals.countP (isAt unit other) =
      if other = depth then (arrivals.map (·.unit)).count unit else 0 := by
  split
  · rename_i same
    rw [same, List.count, List.countP_map]
    refine List.countP_congr fun arrival member => ?_
    simp [isAt, level arrival member]
  · rename_i apart
    refine List.countP_eq_zero.mpr fun arrival member => ?_
    simp [isAt, level arrival member, Ne.symm apart]

/-- The units of a layer lead to a nearest unit once for each shortest walk, if the
units that are nearest there stand on it once for each. -/
theorem count_leads_of_nearest {entries : List N}
    (arrive : ∀ earlier ∈ entries, Arrives graph gate source depth earlier)
    (same : ∀ earlier, OnLayer graph gate source depth earlier →
      entries.count earlier = (ends graph gate source depth).count earlier)
    (nearest : Nearest graph gate source (depth + 1) unit) :
    (entries.flatMap (leads graph gate depth)).count unit =
      (ends graph gate source (depth + 1)).count unit := by
  refine count_flatMap_congr fun earlier leads => ?_
  obtain ⟨edge, given, _, rfl⟩ := mem_leads_iff.mp leads
  by_cases arrives : Arrives graph gate source depth earlier
  · exact same earlier (arrives.onLayer given nearest)
  · rw [List.count_eq_zero_of_not_mem fun member => arrives (arrive earlier member),
      List.count_eq_zero_of_not_mem fun member => arrives (mem_ends_iff.mp member)]

namespace Tally

theorem visit (tally : Tally graph gate source depth (arrival :: waiting) next (records, log)) :
    Tally graph gate source depth waiting
      (Layers.visit graph (Layers.logged (recorder gate)) arrival next (records, log)).1
      (Layers.visit graph (Layers.logged (recorder gate)) arrival next (records, log)).2 := by
  obtain ⟨frontier, past, counted, onward⟩ := tally
  obtain ⟨justified, late⟩ := frontier.arriving arrival List.mem_cons_self
  have atDepth := justified.depth_eq
  have visited := frontier.visit
  rw [Layers.visit_logged]
  refine ⟨visited, ?_, ?_, ?_⟩
  · intro other member
    rcases List.mem_cons.mp member with rfl | earlier
    · exact ⟨atDepth ▸ justified, atDepth.le, fun least nearest => atDepth ▸ late least nearest⟩
    · exact past other earlier
  · intro unit least nearest bound
    rw [← counted unit least nearest bound, List.cons_append]
    exact (List.perm_middle.countP_eq _).symm
  · intro unit nearest
    have new : unit ∉ note gate records arrival := by
      intro member
      have found := Std.HashMap.getElem?_eq_some_getElem member
      obtain ⟨known, bound⟩ := frontier.noted.nearest unit _ found
      have same := known.unique nearest
      omega
    rw [← onward unit nearest, visit_recorder, List.countP_append, countP_led new atDepth,
      List.flatMap_cons, List.count_append]
    omega

/-- On the layer to come a nearest unit stands once for each shortest walk, when
nothing is left to visit on the layer before. -/
theorem count_next (tally : Tally graph gate source depth [] next (records, log))
    (nearest : Nearest graph gate source (depth + 1) unit) :
    (next.reverse.map (·.unit)).count unit = (ends graph gate source (depth + 1)).count unit := by
  have level : ∀ arrival ∈ next, arrival.depth = depth + 1 := fun arrival member =>
    (tally.frontier.leaving arrival member).1.depth_eq
  have entries := tally.onward unit nearest
  rw [List.flatMap_nil, List.count_nil, Nat.add_zero, countP_isAt unit level, if_pos rfl] at entries
  rw [List.map_reverse, List.count_reverse, entries]

theorem change (tally : Tally graph gate source depth [] next (records, log)) :
    Tally graph gate source (depth + 1) next.reverse [] (records, log) := by
  have arriving := tally.frontier.change.arriving
  refine ⟨tally.frontier.change, ?_, ?_, ?_⟩
  · intro arrival member
    obtain ⟨justified, bound, late⟩ := tally.past arrival member
    exact ⟨justified, Nat.le_succ_of_le bound, late⟩
  · intro unit least nearest bound
    rw [List.countP_append,
      countP_isAt unit fun arrival member => (arriving arrival member).1.depth_eq]
    rcases Nat.le_succ_iff.mp bound with earlier | rfl
    · have before := tally.counted unit least nearest earlier
      rw [List.append_nil] at before
      rw [if_neg (by omega), Nat.add_zero, before]
    · have none : log.countP (isAt unit (depth + 1)) = 0 := by
        refine List.countP_eq_zero.mpr fun arrival member => ?_
        have bound := (tally.past arrival member).2.1
        simp [isAt, show arrival.depth ≠ depth + 1 by omega]
      rw [none, Nat.zero_add, if_pos rfl, tally.count_next nearest]
  · intro unit nearest
    rw [List.countP_nil, Nat.zero_add, ← List.flatMap_map (fun arrival : Arrival N => arrival.unit)]
    refine count_leads_of_nearest (fun earlier member => ?_) (fun earlier onLayer => ?_) nearest
    · obtain ⟨arrival, waits, rfl⟩ := List.mem_map.mp member
      exact (arriving arrival waits).1.arrives
    · exact tally.count_next (onLayer.resolve_left fun first => Nat.succ_ne_zero depth first.1)

end Tally

theorem kept_tally :
    Layers.Kept graph (Layers.logged (recorder gate)) (Tally graph gate source) :=
  ⟨fun tally => tally.visit, fun tally => tally.change⟩

theorem tally_start (graph : BuildGraph N) (gate : Gate) (source : N) :
    Tally graph gate source 0 [⟨source, none, 0⟩] [] ((∅ : Records N), []) := by
  refine ⟨frontier_start graph gate source, fun arrival member => (List.not_mem_nil member).elim,
    ?_, ?_⟩
  · intro unit least nearest bound
    cases Nat.le_zero.mp bound
    cases nearest.arrives.eq_source
    simp [isAt, ends]
  · intro unit _
    simp [ends]

/-- A search ends with a tally and nothing left to visit. -/
theorem exists_tally_visits (graph : BuildGraph N) (gate : Gate) (source : N) :
    ∃ depth records, Tally graph gate source depth [] []
      (records, Layers.visits graph (recorder gate) source ∅) := by
  obtain ⟨depth, tally⟩ := kept_tally.walk (tally_start graph gate source)
    fun tally => tally.frontier.depth_lt_budget
  exact ⟨depth, _, tally⟩

/-- A unit is visited on its nearest layer once for each shortest walk to it. -/
theorem countP_visits (nearest : Nearest graph gate source depth unit) :
    (Layers.visits graph (recorder gate) source ∅).countP (isAt unit depth) =
      (ends graph gate source depth).count unit := by
  obtain ⟨reached, records, tally⟩ := exists_tally_visits graph gate source
  have further := kept_tally.beyond tally depth
  have counted := further.counted unit depth nearest (Nat.le_add_left depth reached)
  rwa [List.append_nil] at counted

/-- Every visit of a unit is on its nearest layer or on the layer after it; only the
start of a search with a gate does not count as such. -/
theorem depth_of_visit {arrival : Arrival N} {least : Nat}
    (visited : arrival ∈ Layers.visits graph (recorder gate) source ∅)
    (counts : gate.Counts arrival.depth) (nearest : Nearest graph gate source least arrival.unit) :
    arrival.depth = least ∨ arrival.depth = least + 1 := by
  obtain ⟨_, _, tally⟩ := exists_tally_visits graph gate source
  obtain ⟨justified, _, late⟩ := tally.past arrival visited
  have early := nearest.least arrival.depth counts justified.arrives
  have late := late least nearest
  omega

/-! ### Searches without late visits -/

/-- Whether no edge joins two different units that are equally near. -/
def Layered (graph : BuildGraph N) (gate : Gate) (source : N) : Prop :=
  ∀ depth unit, Nearest graph gate source depth unit → ∀ edge ∈ graph.edges unit,
    edge.target ≠ unit → ¬ Nearest graph gate source depth edge.target

/-- What holds in such a graph while the layer at `depth` is visited: no arrival is
late. -/
structure Punctual (graph : BuildGraph N) (gate : Gate) (source : N) (depth : Nat)
    (current next : List (Arrival N)) (memory : Records N × List (Arrival N)) : Prop where
  frontier : Frontier graph gate source depth current next memory.1
  past : ∀ arrival ∈ memory.2, gate.Counts arrival.depth →
    Nearest graph gate source arrival.depth arrival.unit
  waiting : ∀ arrival ∈ current, gate.Counts depth →
    Nearest graph gate source depth arrival.unit
  coming : ∀ arrival ∈ next, Nearest graph gate source (depth + 1) arrival.unit

namespace Punctual

/-- The units to which a visit leads on are not nearer than the next layer: those
before it are recorded, and the edge would join two units of one layer. -/
theorem nearest_led (layered : Layered graph gate source)
    (punctual : Punctual graph gate source depth (arrival :: waiting) next (records, log))
    {edge : Edge N} (given : edge ∈ graph.edges arrival.unit)
    (follows : followed gate (note gate records arrival) arrival edge = true) :
    Nearest graph gate source (depth + 1) edge.target := by
  obtain ⟨new, admitted⟩ := followed_iff.mp follows
  have justified := (punctual.frontier.arriving arrival List.mem_cons_self).1
  rw [justified.depth_eq] at admitted
  obtain ⟨least, bound, nearest⟩ :=
    exists_nearest (gate.counts_of_pos depth.succ_pos) (justified.arrives.hop given admitted)
  rcases Nat.lt_trichotomy least depth with nearer | rfl | further
  · exact absurd (punctual.frontier.noted.nearer _ least nearest nearer) new
  · have here := punctual.waiting arrival List.mem_cons_self nearest.counts
    have apart : edge.target ≠ arrival.unit := by
      intro same
      rw [same] at new
      exact new (punctual.frontier.recorded here)
    exact absurd nearest (layered least arrival.unit here edge given apart)
  · rwa [show depth + 1 = least by omega]

theorem visit (layered : Layered graph gate source)
    (punctual : Punctual graph gate source depth (arrival :: waiting) next (records, log)) :
    Punctual graph gate source depth waiting
      (Layers.visit graph (Layers.logged (recorder gate)) arrival next (records, log)).1
      (Layers.visit graph (Layers.logged (recorder gate)) arrival next (records, log)).2 := by
  have atDepth := (punctual.frontier.arriving arrival List.mem_cons_self).1.depth_eq
  have visited := punctual.frontier.visit
  rw [Layers.visit_logged]
  refine ⟨visited, ?_, fun other later => punctual.waiting other (List.mem_cons_of_mem _ later), ?_⟩
  · intro other member counts
    rcases List.mem_cons.mp member with rfl | earlier
    · rw [atDepth] at counts ⊢
      exact punctual.waiting other List.mem_cons_self counts
    · exact punctual.past other earlier counts
  · intro other member
    rw [visit_recorder] at member
    rcases List.mem_append.mp member with fresh | old
    · obtain ⟨edge, chosen, rfl⟩ := List.mem_map.mp (List.mem_reverse.mp fresh)
      obtain ⟨given, follows⟩ := List.mem_filter.mp chosen
      exact punctual.nearest_led layered given follows
    · exact punctual.coming other old

theorem change (punctual : Punctual graph gate source depth [] next (records, log)) :
    Punctual graph gate source (depth + 1) next.reverse [] (records, log) :=
  ⟨punctual.frontier.change, punctual.past,
    fun _ member _ => punctual.coming _ (List.mem_reverse.mp member),
    fun _ member => (List.not_mem_nil member).elim⟩

end Punctual

/-- Where no edge joins two units of one layer, every visit is on the nearest layer. -/
theorem nearest_of_visit (layered : Layered graph gate source)
    (visited : arrival ∈ Layers.visits graph (recorder gate) source ∅)
    (counts : gate.Counts arrival.depth) :
    Nearest graph gate source arrival.depth arrival.unit := by
  have kept : Layers.Kept graph (Layers.logged (recorder gate)) (Punctual graph gate source) :=
    ⟨fun punctual => punctual.visit layered, fun punctual => punctual.change⟩
  have start : Punctual graph gate source 0 [⟨source, none, 0⟩] [] ((∅ : Records N), []) := by
    refine ⟨frontier_start graph gate source, fun other member => (List.not_mem_nil member).elim,
      fun other member counts => ?_, fun other member => (List.not_mem_nil member).elim⟩
    cases List.mem_singleton.mp member
    exact ⟨counts, .start, fun least _ _ => Nat.zero_le least⟩
  obtain ⟨_, punctual⟩ := kept.walk start fun punctual => punctual.frontier.depth_lt_budget
  exact punctual.past arrival visited counts

/-- The visits of the search that makes the records: on its nearest layer a unit is
visited once for each shortest walk to it.  Further visits can only follow on the next
layer, and not at all where no edge joins two units of one layer; the start of a search
with a gate is not counted. -/
theorem visits_of_search (graph : BuildGraph N) (gate : Gate) (source : N) :
    (Layers.walk graph (Layers.logged (recorder gate)) source (∅, [])).1 =
        graph.routeRecords gate source ∧
      (∀ unit depth, Nearest graph gate source depth unit →
        (Layers.visits graph (recorder gate) source ∅).countP (isAt unit depth) =
          (ends graph gate source depth).count unit) ∧
      ∀ arrival ∈ Layers.visits graph (recorder gate) source ∅, gate.Counts arrival.depth →
        (∀ least, Nearest graph gate source least arrival.unit →
          arrival.depth = least ∨ arrival.depth = least + 1) ∧
        (Layered graph gate source →
          Nearest graph gate source arrival.depth arrival.unit) :=
  ⟨Layers.fst_walk_logged source ∅, fun _ _ nearest => countP_visits nearest,
    fun _ visited counts => ⟨fun _ nearest => depth_of_visit visited counts nearest,
      fun layered => nearest_of_visit layered visited counts⟩⟩

/-! ### A graph with many shortest walks -/

/-- A graph in which every unit below `rungs` needs its successor to compile and at
run time. -/
def ladder : Nat → BuildGraph Nat
  | 0 => .empty
  | rungs + 1 =>
    (ladder rungs).addEdges rungs [⟨rungs + 1, .compile⟩, ⟨rungs + 1, .runtime⟩]

theorem edges_ladder (rungs unit : Nat) : (ladder rungs).edges unit =
    if unit < rungs then [⟨unit + 1, .compile⟩, ⟨unit + 1, .runtime⟩] else [] := by
  induction rungs generalizing unit with
  | zero => simp [ladder]
  | succ rungs inductionHypothesis =>
      rw [ladder, BuildGraph.edges_addEdges, inductionHypothesis rungs, inductionHypothesis unit,
        if_neg (Nat.lt_irrefl rungs), List.nil_append]
      rcases Nat.lt_trichotomy unit rungs with below | rfl | above
      · simp [below.ne', below, Nat.lt_succ_of_lt below]
      · simp
      · simp [above.ne, above.not_gt, Nat.not_lt.mpr (Nat.succ_le_of_lt above)]

theorem edgeCount_ladder_le (rungs : Nat) : (ladder rungs).edgeCount ≤ 2 * rungs := by
  have complete : ∀ unit, ∀ edge ∈ (ladder rungs).edges unit, unit ∈ Finset.range rungs := by
    intro unit edge given
    by_contra above
    rw [edges_ladder, if_neg (by simpa using above)] at given
    cases given
  refine (BuildGraph.edgeCount_le_sum complete).trans ?_
  rw [Finset.sum_const_nat (m := 2), Finset.card_range, Nat.mul_comm]
  intro unit below
  rw [edges_ladder, if_pos (Finset.mem_range.mp below)]
  rfl

/-- Every rung doubles the number of walks, but for the first one of a search with a
gate. -/
theorem ends_ladder (gate : Gate) {rungs depth : Nat} (below : depth < rungs) :
    ∃ count, 2 ^ depth ≤ count ∧
      ends (ladder rungs) gate 0 (depth + 1) = List.replicate count (depth + 1) := by
  induction depth with
  | zero =>
      cases gate with
      | anyEdge => exact ⟨2, by decide, by simp [ends, leads, edges_ladder, below, Gate.admits]⟩
      | compileEdge => exact ⟨1, le_rfl, by simp [ends, leads, edges_ladder, below, Gate.admits]⟩
  | succ depth inductionHypothesis =>
      obtain ⟨count, bound, walks⟩ := inductionHypothesis (by omega)
      refine ⟨count * 2, by rw [pow_succ]; omega, ?_⟩
      have doubled : leads (ladder rungs) gate (depth + 1) (depth + 1) =
          List.replicate 2 (depth + 2) := by
        simp [leads, edges_ladder, below]
      rw [ends, walks, List.flatMap_replicate, doubled, List.flatten_replicate_replicate]

theorem eq_of_arrives_ladder {gate : Gate} {rungs depth unit : Nat}
    (arrives : Arrives (ladder rungs) gate 0 depth unit) : unit = depth := by
  induction arrives with
  | start => rfl
  | hop _ given _ inductionHypothesis =>
      rw [edges_ladder] at given
      grind

theorem nearest_ladder (gate : Gate) {rungs depth : Nat} (below : depth < rungs) :
    Nearest (ladder rungs) gate 0 (depth + 1) (depth + 1) := by
  obtain ⟨count, bound, walks⟩ := ends_ladder gate below
  have some : count ≠ 0 := by
    have := Nat.two_pow_pos depth
    omega
  refine ⟨gate.counts_of_pos depth.succ_pos, mem_ends_iff.mp ?_, fun other _ arrives => ?_⟩
  · rw [walks]
    exact List.mem_replicate.mpr ⟨some, rfl⟩
  · exact (eq_of_arrives_ladder arrives).le

/-- The unit behind the last rung is visited as often as there are walks to it. -/
theorem two_pow_le_visits (gate : Gate) (rungs : Nat) :
    2 ^ rungs ≤ (Layers.visits (ladder (rungs + 1)) (recorder gate) 0 ∅).countP
      (isAt (rungs + 1) (rungs + 1)) := by
  obtain ⟨count, bound, walks⟩ := ends_ladder gate rungs.lt_succ_self
  rw [countP_visits (nearest_ladder gate rungs.lt_succ_self), walks, List.count_replicate_self]
  exact bound

/-- On two rungs the last unit is visited four times. -/
theorem visits_of_search_ladder :
    (Layers.visits (ladder 2) (recorder .anyEdge) 0 ∅).countP (isAt 2 2) = 4 := by
  obtain ⟨_, counted, _⟩ := visits_of_search (ladder 2) .anyEdge 0
  rw [counted 2 2 (nearest_ladder .anyEdge Nat.one_lt_two)]
  simp [ends, leads, edges_ladder, Gate.admits]

/-- A search may visit a unit twice, with a gate and without it, and no multiple of
the number of edges bounds its visits. -/
theorem visits_unbounded :
    (∀ gate, 1 < (Layers.visits (ladder 2) (recorder gate) 0 ∅).countP (·.unit == 2)) ∧
      ¬ ∃ factor, ∀ (graph : BuildGraph Nat) (source : Nat),
        (Layers.visits graph (recorder .anyEdge) source ∅).length ≤
          factor * (graph.edgeCount + 1) := by
  constructor
  · intro gate
    have visited : 2 ≤ (Layers.visits (ladder 2) (recorder gate) 0 ∅).countP (isAt 2 2) :=
      two_pow_le_visits gate 1
    have more : (Layers.visits (ladder 2) (recorder gate) 0 ∅).countP (isAt 2 2) ≤
        (Layers.visits (ladder 2) (recorder gate) 0 ∅).countP (·.unit == 2) :=
      List.countP_mono_left fun arrival _ here => (Bool.and_eq_true _ _ ▸ here).1
    exact visited.trans more
  · rintro ⟨factor, bounded⟩
    -- So many rungs that the power of two outgrows the bound, which is quadratic.
    have few := (bounded (ladder (2 * (factor + 3) + 1)) 0).trans
      (Nat.mul_le_mul_left factor (Nat.succ_le_succ (edgeCount_ladder_le _)))
    have many := (two_pow_le_visits .anyEdge (2 * (factor + 3))).trans List.countP_le_length
    have less : factor * (2 * (2 * (factor + 3) + 1) + 1) < 2 ^ (2 * (factor + 3)) := by
      have small : factor + 1 ≤ 2 ^ factor := Nat.lt_two_pow_self
      calc factor * (2 * (2 * (factor + 3) + 1) + 1)
          < 64 * ((factor + 1) * (factor + 1)) := by nlinarith
        _ ≤ 64 * (2 ^ factor * 2 ^ factor) := by gcongr
        _ = 2 ^ (2 * (factor + 3)) := by ring
    exact less.not_ge (many.trans few)

end Route

end BuildImpact
