/-
Module: BuildImpact.Proofs.Affected.Inversion
Layer: Proofs
Purpose: Turning the impacts of a batch of roots around loses nothing and adds nothing.
  What one root's list does to the map is one lemma; from it, by induction over the
  batch, each unit gets the sublist of the roots that it recompiles.  Only what the
  lists hold counts, so neither the order inside them nor the order in which parallel
  tasks deliver them shows in the result.
Imports: BuildImpact.Graph.Affected, BuildImpact.Proofs.Impact.Chains
Trusted boundary: none
Main exports: Affected.Lists, Affected.Lists.mem_invert, Affected.Lists.getD_invert,
  Affected.inOrder, Affected.Finishes, BuildGraph.rootsByUnit_exact
Open obligations: none
-/
import BuildImpact.Graph.Affected
import BuildImpact.Proofs.Impact.Chains

namespace BuildImpact

variable {N : Type} [BEq N] [Hashable N] {graph : BuildGraph N}

namespace Affected

/-! ### Parallel tasks -/

/-- The impacts of a batch, each behind its root.  A task finds the impact for one place
of the batch and leaves it there; `finished` holds the places with what was left, in the
order in which the tasks came to an end. -/
def inOrder (roots : List N) (finished : List (Nat × List N)) : List (N × List N) :=
  roots.zipIdx.map fun task => (task.1, (finished.lookup task.2).getD [])

/-- Whether `finished` is a course of the tasks of a batch: each place is served once, at
any time, with the impact of its root listed in any order. -/
structure Finishes (graph : BuildGraph N) (roots : List N) (finished : List (Nat × List N)) :
    Prop where
  places : (finished.map (·.1)).Perm (List.range roots.length)
  listed : ∀ task ∈ finished, ∀ root, roots[task.1]? = some root →
    task.2.Perm (graph.impact root).toList

/-! ### The inversion -/

/-- Whether `impacts` lists the impact of each root of the batch, in any order. -/
structure Lists (graph : BuildGraph N) (roots : List N) (impacts : List (N × List N)) :
    Prop where
  roots_eq : impacts.map (·.1) = roots
  listed : ∀ impact ∈ impacts, impact.2.Perm (graph.impact impact.1).toList

variable [LawfulBEq N]

/-- Marking the units of a list makes keys of them and of no other unit. -/
theorem mem_foldl_mark (root unit : N) (units : List N) (affected : Std.HashMap N (List N)) :
    unit ∈ units.foldl (mark root) affected ↔ unit ∈ units ∨ unit ∈ affected := by
  induction units generalizing affected with
  | nil => simp
  | cons first units inductionHypothesis =>
      rw [List.foldl_cons, inductionHypothesis, mark, Std.HashMap.mem_insert, beq_iff_eq,
        List.mem_cons, eq_comm]
      tauto

/-- Marking the units of a list, each there once, puts the root in front of what each
of them has, and leaves all other units alone. -/
theorem getD_foldl_mark (root unit : N) {units : List N} (once : units.Nodup)
    (affected : Std.HashMap N (List N)) :
    (units.foldl (mark root) affected).getD unit [] =
      if unit ∈ units then root :: affected.getD unit [] else affected.getD unit [] := by
  classical
  induction units generalizing affected with
  | nil => simp
  | cons first units inductionHypothesis =>
      obtain ⟨new, once⟩ := List.nodup_cons.mp once
      rw [List.foldl_cons, inductionHypothesis once, mark, Std.HashMap.getD_insert]
      by_cases here : first = unit
      · subst here
        simp [new]
      · have away : unit ≠ first := Ne.symm here
        simp [here, away]

omit [LawfulBEq N] in
theorem Lists.rest {impact : N × List N} {impacts : List (N × List N)} {root : N}
    {roots : List N} (lists : Lists graph (root :: roots) (impact :: impacts)) :
    impact.1 = root ∧ impact.2.Perm (graph.impact root).toList ∧ Lists graph roots impacts := by
  obtain ⟨same, listed⟩ := lists
  rw [List.map_cons, List.cons.injEq] at same
  have first := listed impact List.mem_cons_self
  rw [same.1] at first
  exact ⟨same.1, first, same.2, fun other member => listed other (List.mem_cons_of_mem _ member)⟩

/-- The keys of the inversion are the units of the impacts. -/
theorem Lists.mem_invert {roots : List N} {impacts : List (N × List N)}
    (lists : Lists graph roots impacts) (unit : N) :
    unit ∈ invert impacts ↔ ∃ root ∈ roots, unit ∈ graph.impact root := by
  induction roots generalizing impacts with
  | nil =>
      cases List.map_eq_nil_iff.mp lists.roots_eq
      simp [invert]
  | cons root roots inductionHypothesis =>
      obtain ⟨impact, impacts, rfl, -, -⟩ := List.map_eq_cons_iff.mp lists.roots_eq
      obtain ⟨-, listing, rest⟩ := lists.rest
      rw [invert, List.foldr_cons, mem_foldl_mark, ← invert, inductionHypothesis rest,
        listing.mem_iff, Std.HashSet.mem_toList, List.exists_mem_cons_iff]

/-- The roots of a unit are those of the batch with the unit in their impact, in order
and as often as the batch has them. -/
theorem Lists.getD_invert {roots : List N} {impacts : List (N × List N)}
    (lists : Lists graph roots impacts) (unit : N) :
    (invert impacts).getD unit [] = roots.filter fun root => (graph.impact root).contains unit := by
  induction roots generalizing impacts with
  | nil =>
      cases List.map_eq_nil_iff.mp lists.roots_eq
      simp [invert]
  | cons root roots inductionHypothesis =>
      obtain ⟨impact, impacts, rfl, -, -⟩ := List.map_eq_cons_iff.mp lists.roots_eq
      obtain ⟨same, listing, rest⟩ := lists.rest
      have once : impact.2.Nodup := by
        rw [listing.nodup_iff]
        exact Std.HashSet.distinct_toList.imp fun differ => by simpa using differ
      have member : unit ∈ impact.2 ↔ (graph.impact root).contains unit = true := by
        rw [listing.mem_iff, Std.HashSet.mem_toList, Std.HashSet.contains_iff_mem]
      rw [invert, List.foldr_cons, getD_foldl_mark _ _ once, ← invert, inductionHypothesis rest,
        List.filter_cons, same]
      by_cases found : unit ∈ impact.2
      · rw [if_pos found, if_pos (member.mp found)]
      · rw [if_neg found, if_neg (mt member.mpr found)]

/-- Whatever the order inside the impacts, the inversion holds the same. -/
theorem Lists.getElem?_invert_congr {roots : List N} {first second : List (N × List N)}
    (one : Lists graph roots first) (other : Lists graph roots second) (unit : N) :
    (invert first)[unit]? = (invert second)[unit]? := by
  have value := (one.getD_invert unit).trans (other.getD_invert unit).symm
  have key := (one.mem_invert unit).trans (other.mem_invert unit).symm
  by_cases member : unit ∈ invert first
  · have there := key.mp member
    rw [Std.HashMap.getElem?_eq_some_getD member, Std.HashMap.getElem?_eq_some_getD there, value]
  · have absent := mt key.mpr member
    rw [Std.HashMap.getElem?_eq_none member, Std.HashMap.getElem?_eq_none absent]

/-! ### The lists of a batch -/

omit [LawfulBEq N] in
/-- The lists that the batch itself makes. -/
theorem lists_of_impacts (graph : BuildGraph N) (roots : List N) :
    Lists graph roots (roots.map fun root =>
      (root, (graph.impactWithin (Impact.budget graph) root).matched.toList)) where
  roots_eq := by simp [Function.comp_def]
  listed := by
    intro impact member
    obtain ⟨root, _, rfl⟩ := List.mem_map.mp member
    exact .refl _

omit [LawfulBEq N] in
/-- However the tasks of a batch finish, each root gets its own impact. -/
theorem Finishes.lists {roots : List N} {finished : List (Nat × List N)}
    (finishes : Finishes graph roots finished) : Lists graph roots (inOrder roots finished) where
  roots_eq := by simp [inOrder, Function.comp_def, List.zipIdx_map_fst]
  listed := by
    intro impact member
    obtain ⟨⟨root, place⟩, given, rfl⟩ := List.mem_map.mp member
    have holder : roots[place]? = some root := List.mem_zipIdx_iff_getElem?.mp given
    have served : place ∈ finished.map (·.1) := by
      rw [finishes.places.mem_iff, List.mem_range]
      exact (List.getElem?_eq_some_iff.mp holder).1
    obtain ⟨task, delivered, same⟩ := List.mem_map.mp served
    have found : (finished.lookup place).isSome := by
      rw [List.lookup_isSome_iff]
      exact ⟨task, delivered, by simp [same]⟩
    obtain ⟨listing, looked⟩ := Option.isSome_iff_exists.mp found
    obtain ⟨front, back, split, _⟩ := List.lookup_eq_some_iff.mp looked
    have holds : (place, listing) ∈ finished := by simp [split]
    rw [looked, Option.getD_some]
    exact finishes.listed _ holds root holder

end Affected

namespace BuildGraph

variable [LawfulBEq N]

/-- The inversion of a batch is exact.  Its keys are the units in the impact of some root
of the batch; the value of a key is the sublist of the roots with the unit in their
impact, in the order given and with the repetitions given.  The order in which parallel
tasks finish, and the order in which each of them lists its impact, do not matter. -/
theorem rootsByUnit_exact (graph : BuildGraph N) (roots : List N) :
    (∀ unit, unit ∈ graph.rootsByUnit roots ↔ ∃ root ∈ roots, unit ∈ graph.impact root) ∧
    (∀ unit found, (graph.rootsByUnit roots)[unit]? = some found →
      found = roots.filter fun root => (graph.impact root).contains unit) ∧
    ∀ finished, Affected.Finishes graph roots finished → ∀ unit : N,
      (Affected.invert (Affected.inOrder roots finished))[unit]? =
        (graph.rootsByUnit roots)[unit]? := by
  have lists := Affected.lists_of_impacts graph roots
  refine ⟨lists.mem_invert, fun unit found value => ?_, fun finished finishes unit => ?_⟩
  · rw [← lists.getD_invert unit]
    exact (Std.HashMap.getD_eq_getD_getElem?.trans (congrArg (Option.getD · []) value)).symm
  · exact finishes.lists.getElem?_invert_congr lists unit

/-- Nothing leads from `1` or `9` to `0`, so neither is recompiled by it. -/
theorem zero_notMem_impact_shownFirst :
    0 ∉ shownFirst.impact 1 ∧ 0 ∉ shownFirst.impact 9 := by
  have apart : ∀ root, root ∈ [1, 9] → ¬ shownFirst.Reaches root 0 := by
    intro root member reaches
    have stays : ∀ unit ∈ [1, 4, 9], ∀ edge ∈ shownFirst.edges unit, edge.target ∈ [1, 4, 9] := by
      simp [shownFirst, ofList]
    have inside : root ∈ [1, 4, 9] := (by decide : [1, 9] ⊆ [1, 4, 9]) member
    exact absurd (reaches.closed stays inside) (by decide)
  exact ⟨fun member => apart 1 (by decide) (Impact.reaches_of_mem_impact member),
    fun member => apart 9 (by decide) (Impact.reaches_of_mem_impact member)⟩

/-- In the batch of `1`, `0`, `1` and a unit that the graph does not name, `0` is in its
own impact alone; that holds also if the tasks finish in another order and one of them
lists its impact backwards. -/
theorem rootsByUnit_exact_shownFirst :
    let impacts (root : Nat) := (shownFirst.impact root).toList
    let finished := [(2, impacts 1), (3, impacts 9), (1, (impacts 0).reverse), (0, impacts 1)]
    Affected.Finishes shownFirst [1, 0, 1, 9] finished ∧
      (Affected.invert (Affected.inOrder [1, 0, 1, 9] finished))[0]? = some [0] := by
  intro impacts finished
  have finishes : Affected.Finishes shownFirst [1, 0, 1, 9] finished := by
    refine ⟨by decide, ?_⟩
    simp only [finished, List.forall_mem_cons]
    refine ⟨?_, ?_, ?_, ?_, nofun⟩ <;> rintro root ⟨⟩
    · exact .refl _
    · exact .refl _
    · exact List.reverse_perm _
    · exact .refl _
  obtain ⟨keys, values, anyCourse⟩ := rootsByUnit_exact shownFirst [1, 0, 1, 9]
  obtain ⟨fromOne, fromNine⟩ := zero_notMem_impact_shownFirst
  have own := Impact.root_mem_impact shownFirst 0
  have value := Std.HashMap.getElem?_eq_some_getElem ((keys 0).mpr ⟨0, by decide, own⟩)
  have only := values 0 _ value
  refine ⟨finishes, (anyCourse finished finishes 0).trans ?_⟩
  rw [value, only]
  simp [fromOne, fromNine, own]

end BuildGraph

end BuildImpact
