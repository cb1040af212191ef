/-
Module: BuildImpact.Proofs.Route.Shortest
Layer: Proofs
Purpose: The routes that a search gives.  The way back from a record passes records that
  are each one hop nearer, the source of a search behind a gate among them at most once,
  and gives the units of a walk with as many hops as the record says.  So a route is given
  wherever there is a walk that counts, and none is shorter.
Imports: BuildImpact.Proofs.Depths.Minimal, BuildImpact.Proofs.Route.Search
Trusted boundary: none
Main exports: Route.exists_walk_of_traced, Route.isSome_routeTo?_iff,
  Route.exists_walk_of_routeTo?, BuildGraph.gatedRoute?_exact, BuildGraph.shortestRoute?_exact
Open obligations: none
-/
import BuildImpact.Proofs.Depths.Minimal
import BuildImpact.Proofs.Route.Search

namespace BuildImpact

variable {N : Type} [BEq N] [Hashable N] {graph : BuildGraph N}

namespace Route

variable {gate : Gate} {source target : N} {records : Records N}

/-! ### The way back -/

/-- The way back goes on at a parent whose record is less deep. -/
theorem trace_onward {parent : N} {known : Record N} {depth : Nat}
    (recorded : records[parent]? = some known) (less : known.depth < depth) (route : List N) :
    trace records ⟨depth, some parent⟩ route = trace records known (parent :: route) := by
  rw [trace]
  simp only [recorded, less, if_true]

/-- The way back ends at any other parent. -/
theorem trace_ends {parent : N} {depth : Nat}
    (ends : ¬ ∃ known, records[parent]? = some known ∧ known.depth < depth) (route : List N) :
    trace records ⟨depth, some parent⟩ route = parent :: route := by
  rw [trace]
  cases recorded : records[parent]? with
  | none => simp only [recorded]
  | some known =>
      have notLess : ¬ known.depth < depth := fun less => ends ⟨known, recorded, less⟩
      simp only [recorded, notLess, if_false]

/-- The way back from a unit passes its parent and goes on as the way back from
there: it ends only at the source, without a record or with one from a cycle. -/
theorem exists_walk_to_parent {parent : N} {depth : Nat}
    (onLayer : (depth = 0 ∧ parent = source) ∨
      ∃ known, records[parent]? = some known ∧ known.depth = depth)
    (earlier : ∀ grandparent, records[parent]? = some ⟨depth, grandparent⟩ →
      ∃ edges, Walk graph source edges parent ∧ gate.Opens edges ∧ edges.length = depth ∧
        ∀ route, trace records ⟨depth, grandparent⟩ (parent :: route) =
          Walk.units source edges ++ route) :
    ∃ edges, Walk graph source edges parent ∧ gate.Opens edges ∧ edges.length = depth ∧
      ∀ route, trace records ⟨depth + 1, some parent⟩ route =
        Walk.units source edges ++ route := by
  by_cases onward : ∃ known, records[parent]? = some known ∧ known.depth < depth + 1
  · obtain ⟨known, recorded, less⟩ := onward
    have same : known.depth = depth := by
      rcases onLayer with ⟨rfl, _⟩ | ⟨other, isOther, otherDepth⟩
      · exact Nat.lt_one_iff.mp less
      · cases recorded.symm.trans isOther
        exact otherDepth
    obtain ⟨knownDepth, grandparent⟩ := known
    cases same
    obtain ⟨edges, walk, opens, length, traces⟩ := earlier grandparent recorded
    refine ⟨edges, walk, opens, length, fun route => ?_⟩
    rw [trace_onward recorded less, traces]
  · rcases onLayer with ⟨rfl, rfl⟩ | ⟨known, recorded, rfl⟩
    · exact ⟨[], .stay parent, nofun, rfl, trace_ends onward⟩
    · exact absurd ⟨known, recorded, known.depth.lt_succ_self⟩ onward

/-- The way back from a record gives the units of a walk with as many hops as the
record says. -/
theorem exists_walk_of_traced
    (traced : ∀ unit record, records[unit]? = some record →
      Traced graph gate source records unit record)
    {unit : N} {record : Record N} (found : records[unit]? = some record) :
    ∃ edges, Walk graph source edges unit ∧ gate.Opens edges ∧ edges.length = record.depth ∧
      ∀ route, trace records record (unit :: route) = Walk.units source edges ++ route := by
  obtain ⟨depth, parent⟩ := record
  -- A parent is one hop nearer, so the induction is on the depth.
  induction depth generalizing unit parent with
  | zero =>
      cases parent with
      | none =>
          obtain ⟨rfl, _⟩ := traced unit _ found
          refine ⟨[], .stay unit, nofun, rfl, fun route => ?_⟩
          rw [trace]
          rfl
      | some parent =>
          obtain ⟨_, impossible, _⟩ := traced unit _ found
          cases impossible
  | succ depth inductionHypothesis =>
      cases parent with
      | none =>
          obtain ⟨_, impossible⟩ := traced unit _ found
          cases impossible
      | some parent =>
          obtain ⟨_, ⟨rfl⟩, ⟨edge, given, admitted, rfl⟩, onLayer⟩ := traced unit _ found
          obtain ⟨edges, walk, opens, rfl, traces⟩ :=
            exists_walk_to_parent onLayer inductionHypothesis
          refine ⟨edges ++ [edge], walk.snoc given, opens.snoc admitted, by simp, fun route => ?_⟩
          rw [traces, Walk.units_snoc, List.append_assoc]
          rfl

variable [LawfulBEq N]

/-- A search gives a route wherever some walk counts. -/
theorem isSome_routeTo?_iff :
    (routeTo? (graph.routeRecords gate source) target).isSome ↔
      ∃ depth, gate.Counts depth ∧ Arrives graph gate source depth target := by
  rw [routeTo?, Option.isSome_map, ← Std.HashMap.mem_iff_isSome_getElem?]
  constructor
  · intro member
    have nearest := records_nearest (Std.HashMap.getElem?_eq_some_getElem member)
    exact ⟨_, nearest.counts, nearest.arrives⟩
  · rintro ⟨depth, counts, arrives⟩
    obtain ⟨least, _, nearest⟩ := exists_nearest counts arrives
    exact records_complete nearest

/-- A route that a search gives has the units of a walk that begins as the gate
demands, with the least number of hops. -/
theorem exists_walk_of_routeTo? {route : List N}
    (given : routeTo? (graph.routeRecords gate source) target = some route) :
    ∃ edges, route = Walk.units source edges ∧ Walk graph source edges target ∧
      gate.Opens edges ∧ Nearest graph gate source edges.length target := by
  rw [routeTo?, Option.map_eq_some_iff] at given
  obtain ⟨record, found, rfl⟩ := given
  obtain ⟨edges, walk, opens, length, traces⟩ :=
    exists_walk_of_traced (fun _ _ => records_traced) found
  refine ⟨edges, by simpa using traces [], walk, opens, ?_⟩
  rw [length]
  exact records_nearest found

end Route

namespace BuildGraph

variable [LawfulBEq N]

/-- The search behind the gate is exact.  It gives a route where a walk begins
with a compile edge, from a unit to itself too; the route follows edges of the
graph from one end to the other, a compile edge first, and no walk that begins
with a compile edge has fewer hops. -/
theorem gatedRoute?_exact (graph : BuildGraph N) (source target : N) :
    ((graph.gatedRoute? source target).isSome ↔
      ∃ first edges, first.kind = .compile ∧ Walk graph source (first :: edges) target) ∧
    ∀ route, graph.gatedRoute? source target = some route →
      route.head? = some source ∧ route.getLast? = some target ∧
      route.IsChain (fun unit following => ∃ edge ∈ graph.edges unit, edge.target = following) ∧
      (∃ edge ∈ graph.edges source, edge.kind = .compile ∧ route[1]? = some edge.target) ∧
      IsLeast {hops | ∃ first edges, first.kind = .compile ∧
        Walk graph source (first :: edges) target ∧ (first :: edges).length = hops}
        (route.length - 1) := by
  constructor
  · calc (graph.gatedRoute? source target).isSome
        ↔ ∃ depth, Route.Gate.compileEdge.Counts depth ∧
            Route.Arrives graph .compileEdge source depth target := Route.isSome_routeTo?_iff
      _ ↔ ∃ first edges, first.kind = .compile ∧ Walk graph source (first :: edges) target := by
        simp only [Route.arrives_compileEdge_iff]
        constructor
        · rintro ⟨_, first, edges, compile, walk, _⟩
          exact ⟨first, edges, compile, walk⟩
        · rintro ⟨first, edges, compile, walk⟩
          exact ⟨_, first, edges, compile, walk, rfl⟩
  · intro route found
    obtain ⟨edges, rfl, walk, opens, nearest⟩ := Route.exists_walk_of_routeTo? found
    have least := nearest.isLeast
    simp only [Route.arrives_compileEdge_iff] at least
    refine ⟨rfl, walk.getLast?_units, walk.isChain_units, ?_, ?_⟩
    · cases walk with
      | stay => exact absurd (nearest.counts rfl) (Nat.lt_irrefl 0)
      | hop given _ => exact ⟨_, given, eq_of_beq (opens _ rfl), rfl⟩
    · rw [Walk.length_units, Nat.add_sub_cancel]
      exact least

/-- A graph in which the way from `0` to `2` by a compile edge comes back to `0`. -/
def detour : BuildGraph Nat :=
  ofList [(0, [⟨2, .runtime⟩, ⟨1, .runtime⟩, ⟨1, .compile⟩]), (1, [⟨0, .runtime⟩])]

/-- Behind the gate a route leads from `0` to `2`, by `1` and `0` itself, and none
leads from `1`, which has no compile edge. -/
theorem gatedRoute?_exact_detour :
    Walk detour 0 [⟨1, .compile⟩, ⟨0, .runtime⟩, ⟨2, .runtime⟩] 2 ∧
      (detour.gatedRoute? 0 2).isSome ∧ ¬ (detour.gatedRoute? 1 2).isSome := by
  have edges : detour.edges 0 = [⟨2, .runtime⟩, ⟨1, .runtime⟩, ⟨1, .compile⟩] ∧
      detour.edges 1 = [⟨0, .runtime⟩] := by
    simp [detour, ofList]
  have walk : Walk detour 0 [⟨1, .compile⟩, ⟨0, .runtime⟩, ⟨2, .runtime⟩] 2 :=
    .hop (by simp [edges]) (.hop (by simp [edges]) (.hop (by simp [edges]) (.stay 2)))
  refine ⟨walk, (gatedRoute?_exact detour 0 2).1.mpr ⟨_, _, rfl, walk⟩, fun some => ?_⟩
  obtain ⟨first, _, compile, walk⟩ := (gatedRoute?_exact detour 1 2).1.mp some
  cases walk with
  | hop given _ =>
      rw [edges.2, List.mem_singleton] at given
      cases given
      cases compile

/-- The search without a gate is exact and agrees with the depths.  It gives a
route to what is in reach, which is what has a depth; the route follows edges of
the graph from one end to the other, as many as the depth says, and no walk has
fewer. -/
theorem shortestRoute?_exact (graph : BuildGraph N) (source target : N) :
    ((graph.shortestRoute? source target).isSome ↔ graph.Reaches source target) ∧
    ((graph.shortestRoute? source target).isSome ↔ target ∈ graph.depths source) ∧
    ∀ route, graph.shortestRoute? source target = some route →
      route.head? = some source ∧ route.getLast? = some target ∧
      route.IsChain (fun unit following => ∃ edge ∈ graph.edges unit, edge.target = following) ∧
      (graph.depths source)[target]? = some (route.length - 1) ∧
      IsLeast {hops | ∃ edges, Walk graph source edges target ∧ edges.length = hops}
        (route.length - 1) := by
  have some : (graph.shortestRoute? source target).isSome ↔
      ∃ depth, Route.Gate.anyEdge.Counts depth ∧
        Route.Arrives graph .anyEdge source depth target := Route.isSome_routeTo?_iff
  refine ⟨some.trans ⟨?_, ?_⟩, some.trans ⟨?_, ?_⟩, ?_⟩
  · rintro ⟨_, _, arrives⟩
    obtain ⟨edges, walk, _⟩ := Route.arrives_anyEdge_iff.mp arrives
    exact ⟨edges, walk⟩
  · rintro ⟨edges, walk⟩
    exact ⟨edges.length, nofun, Route.arrives_anyEdge_iff.mpr ⟨edges, walk, rfl⟩⟩
  · rintro ⟨depth, counts, arrives⟩
    obtain ⟨least, _, nearest⟩ := Route.exists_nearest counts arrives
    exact (Std.HashMap.getElem?_eq_some_iff.mp (Depths.getElem?_depths_iff.mpr nearest)).fst
  · intro member
    have noted := Std.HashMap.getElem?_eq_some_getElem member
    have nearest := Depths.getElem?_depths_iff.mp noted
    exact ⟨_, nearest.counts, nearest.arrives⟩
  · intro route found
    obtain ⟨edges, rfl, walk, _, nearest⟩ := Route.exists_walk_of_routeTo? found
    have least : IsLeast {hops | ∃ edges, Walk graph source edges target ∧ edges.length = hops}
        edges.length :=
      ⟨⟨edges, walk, rfl⟩, fun hops ⟨other, otherWalk, length⟩ =>
        nearest.least hops nofun (Route.arrives_anyEdge_iff.mpr ⟨other, otherWalk, length⟩)⟩
    rw [Walk.length_units, Nat.add_sub_cancel]
    have depth := Depths.getElem?_depths_iff.mpr nearest
    exact ⟨rfl, walk.getLast?_units, walk.isChain_units, depth, least⟩

/-- From `0` a route leads to `2`, as many hops long as the depth of `2`, and from
a unit that the graph does not name one leads to itself. -/
theorem shortestRoute?_exact_detour :
    (∃ route, detour.shortestRoute? 0 2 = some route ∧
      (detour.depths 0)[2]? = some (route.length - 1)) ∧
      (detour.shortestRoute? 7 7).isSome := by
  have given : (⟨2, .runtime⟩ : Edge Nat) ∈ detour.edges 0 := by
    simp [detour, ofList]
  obtain ⟨inReach, _, routes⟩ := shortestRoute?_exact detour 0 2
  obtain ⟨route, found⟩ := Option.isSome_iff_exists.mp (inReach.mpr (.of_mem given))
  obtain ⟨_, _, _, depth, _⟩ := routes route found
  exact ⟨⟨route, found, depth⟩, (shortestRoute?_exact detour 7 7).1.mpr (.refl 7)⟩

end BuildGraph

end BuildImpact
