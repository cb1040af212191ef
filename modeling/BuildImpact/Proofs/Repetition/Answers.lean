/-
Module: BuildImpact.Proofs.Repetition.Answers
Layer: Proofs
Purpose: Repeated edges change no answer.  A copy of an edge comes when the unit it leads to
  is known, or when it does not count as the edge itself did not, so that the impact walk
  passes it over with the same discoveries made.  A closure and depths depend on what can
  be reached and on what the root shows first, and a route on the first of the shortest
  walks, none of which knows the copies.
Imports: BuildImpact.Proofs.Affected.Inversion, BuildImpact.Proofs.Closure.EdgeOrder,
  BuildImpact.Proofs.Repetition.Routes
Trusted boundary: none
Main exports: Impact.Inert, Impact.Visit.repeated, BuildGraph.RepeatsEdges.exportsFirst_iff,
  BuildGraph.AnswersAlike, BuildGraph.RepeatsEdges.answersAlike, BuildGraph.answers_of_copy
Open obligations: none
-/
import BuildImpact.Proofs.Affected.Inversion
import BuildImpact.Proofs.Closure.EdgeOrder
import BuildImpact.Proofs.Repetition.Routes

namespace BuildImpact

variable {N : Type} [BEq N] [Hashable N] {graph other : BuildGraph N} {root : N}

open BuildGraph (RepeatsEdges)

/-! ### The impact walk -/

namespace Impact

/-- Whether a visit passes an edge over: it does not count, or its target is known. -/
def Inert (found : List (Discovery N)) (inChain : Bool) (edge : Edge N) : Prop :=
  follows inChain edge.kind = false ∨ Found found edge.target

variable {inChain : Bool} {before after : List (Discovery N)} {edges seen : List (Edge N)}

omit [BEq N] [Hashable N] in
theorem Inert.mono {edge : Edge N} (inert : Inert before inChain edge) (within : before ⊆ after) :
    Inert after inChain edge :=
  inert.imp_right (Found.mono within)

omit [BEq N] [Hashable N] in
/-- An edge that was looked at is inert from then on, as those before it. -/
theorem inert_cons {edge : Edge N} (inert : ∀ old ∈ seen, Inert before inChain old)
    (within : before ⊆ after) (looked : Inert after inChain edge) :
    ∀ old ∈ edge :: seen, Inert after inChain old :=
  List.forall_mem_cons.mpr ⟨looked, fun old member => (inert old member).mono within⟩

namespace Visit

/-- Inert edges are passed over. -/
theorem of_inert {edge : Edge N} (inert : Inert before inChain edge)
    (rest : Visit graph inChain edges before after) :
    Visit graph inChain (edge :: edges) before after := by
  rcases inert with ignored | old
  · obtain ⟨target, kind⟩ := edge
    cases kind with
    | compile | reexport => cases ignored
    | runtime =>
        cases ignored
        exact .ignored rest
  · exact .known old rest

theorem of_inert_append {copies : List (Edge N)}
    (inert : ∀ copy ∈ copies, Inert before inChain copy)
    (rest : Visit graph inChain edges before after) :
    Visit graph inChain (copies ++ edges) before after := by
  induction copies with
  | nil => exact rest
  | cons copy copies inductionHypothesis =>
      obtain ⟨first, others⟩ := List.forall_mem_cons.mp inert
      exact of_inert first (inductionHypothesis others)

/-- The copies in front of an edge are passed over. -/
theorem of_repeats {edge : Edge N} {copied : List (Edge N)}
    (list : Repeats seen (edge :: edges) copied) (inert : ∀ old ∈ seen, Inert before inChain old)
    (visits : ∀ onward, Repeats (edge :: seen) edges onward →
      Visit graph inChain (edge :: onward) before after) :
    Visit graph inChain copied before after := by
  obtain ⟨copies, onward, rfl, isCopy, rest⟩ := list.peel
  apply of_inert_append fun copy member => inert copy (isCopy copy member)
  exact visits onward rest

/-- An edge that leads to a discovery is inert once the visit from there is over. -/
theorem inert_cons_inner {discovery : Discovery N} {inside : List (Edge N)} {chain : Bool}
    {edge : Edge N} (inner : Visit graph chain inside (discovery :: before) after)
    (inert : ∀ old ∈ seen, Inert before inChain old) (toUnit : discovery.unit = edge.target) :
    ∀ old ∈ edge :: seen, Inert after inChain old := by
  have within : before ⊆ after :=
    List.Subset.trans (List.subset_cons_self discovery before) inner.subset
  exact inert_cons inert within (.inr ⟨discovery, inner.subset List.mem_cons_self, toUnit⟩)

/-- A visit of edges is one of the same edges with copies, if the edges seen are inert:
a copy is one of an edge that was looked at. -/
theorem repeated (visit : Visit graph inChain edges before after)
    (repeats : RepeatsEdges graph other) {copied : List (Edge N)}
    (list : Repeats seen edges copied) (inert : ∀ edge ∈ seen, Inert before inChain edge) :
    Visit other inChain copied before after := by
  induction visit generalizing seen copied with
  | done inChain found =>
      have passed : ∀ copy ∈ copied, Inert found inChain copy := fun copy member =>
        inert copy ((list.mem_or_mem member).resolve_right List.not_mem_nil)
      rw [← List.append_nil copied]
      exact of_inert_append passed (.done inChain found)
  | known old _ restHypothesis =>
      apply of_repeats list inert
      intro onward rest
      exact .known old (restHypothesis rest (inert_cons inert (List.Subset.refl _) (.inr old)))
  | ignored _ restHypothesis =>
      apply of_repeats list inert
      intro onward rest
      exact .ignored (restHypothesis rest (inert_cons inert (List.Subset.refl _) (.inl rfl)))
  | reexported new _ restHypothesis =>
      apply of_repeats list inert
      intro onward rest
      refine .reexported new (restHypothesis rest ?_)
      exact inert_cons inert (List.subset_cons_self _ _) (.inr ⟨_, List.mem_cons_self, rfl⟩)
  | compiled new inner _ innerHypothesis restHypothesis =>
      apply of_repeats list inert
      intro onward rest
      refine .compiled new (innerHypothesis (repeats _) nofun) (restHypothesis rest ?_)
      exact inner.inert_cons_inner inert rfl
  | needed new inner _ innerHypothesis restHypothesis =>
      apply of_repeats list inert
      intro onward rest
      refine .needed new (innerHypothesis (repeats _) nofun) (restHypothesis rest ?_)
      exact inner.inert_cons_inner inert rfl

end Visit

end Impact

/-! ### The answers -/

namespace BuildGraph

variable [LawfulBEq N]

namespace RepeatsEdges

/-- The impact walk makes the same discoveries, in the same order. -/
theorem discoveries_eq (repeats : RepeatsEdges graph other) (root : N) :
    (other.impactWithin (Impact.budget other) root).discoveries =
      (graph.impactWithin (Impact.budget graph) root).discoveries := by
  have visit := (Impact.visit_impactWithin graph root).repeated repeats (repeats root) nofun
  exact (Impact.visit_impactWithin other root).functional visit

theorem mem_impact_iff (repeats : RepeatsEdges graph other) (root unit : N) :
    unit ∈ other.impact root ↔ unit ∈ graph.impact root := by
  rw [Impact.mem_impact_iff, Impact.mem_impact_iff, repeats.discoveries_eq]

omit [LawfulBEq N] in
/-- The root shows the same units first. -/
theorem exportsFirst_iff (repeats : RepeatsEdges graph other) (root unit : N) :
    graph.ExportsFirst root unit ↔ other.ExportsFirst root unit := by
  obtain ⟨place, embeds⟩ := (repeats root).exists_embeds
  have first := embeds.exists_first_iff
    (fun edge => edge.kind = .reexport ∧ edge.target = unit)
    (fun edge => edge.kind = .reexport → ¬ graph.ReachesAvoiding root edge.target unit)
  simpa only [ExportsFirst, and_assoc, reachesAvoiding_congr repeats.mem_iff] using first

end RepeatsEdges

end BuildGraph

namespace Affected

variable [LawfulBEq N]

/-- Impacts that hold the same units list them alike, but for the order. -/
theorem toList_perm {first second : Std.HashSet N} (same : ∀ unit, unit ∈ first ↔ unit ∈ second) :
    first.toList.Perm second.toList := by
  have once : ∀ set : Std.HashSet N, set.toList.Nodup := fun set =>
    Std.HashSet.distinct_toList.imp fun differ => by simpa using differ
  apply (List.perm_ext_iff_of_nodup (once first) (once second)).mpr
  intro unit
  rw [Std.HashSet.mem_toList, Std.HashSet.mem_toList, same]

/-- A batch of impacts in one graph is one in every graph with the same impacts. -/
theorem Lists.of_same {roots : List N} {impacts : List (N × List N)}
    (lists : Lists other roots impacts)
    (same : ∀ root unit, unit ∈ other.impact root ↔ unit ∈ graph.impact root) :
    Lists graph roots impacts where
  roots_eq := lists.roots_eq
  listed impact member := (lists.listed impact member).trans (toList_perm (same impact.1))

end Affected

namespace BuildGraph

/-- Whether two graphs give the same answers to all questions: impacts with the same
units, closures, depths and inversions that hold the same, and the same routes. -/
structure AnswersAlike (graph other : BuildGraph N) : Prop where
  impact : ∀ root unit, unit ∈ other.impact root ↔ unit ∈ graph.impact root
  closure : ∀ root unit : N, (other.closure root)[unit]? = (graph.closure root)[unit]?
  depths : ∀ root unit : N, (other.depths root)[unit]? = (graph.depths root)[unit]?
  shortestRoute : ∀ source target,
    other.shortestRoute? source target = graph.shortestRoute? source target
  gatedRoute : ∀ source target,
    other.gatedRoute? source target = graph.gatedRoute? source target
  rootsByUnit : ∀ (roots : List N) (unit : N),
    (other.rootsByUnit roots)[unit]? = (graph.rootsByUnit roots)[unit]?

variable [LawfulBEq N]

/-- Repeated edges change no answer. -/
theorem RepeatsEdges.answersAlike (repeats : RepeatsEdges graph other) :
    AnswersAlike graph other where
  impact := repeats.mem_impact_iff
  closure root unit :=
    (getElem?_closure_congr repeats.mem_iff (repeats.exportsFirst_iff root) unit).symm
  depths root unit := by
    apply Depths.getElem?_depths_congr
    intro unit edges
    exact ⟨fun walk => walk.imp fun unit edge => (repeats.mem_iff unit edge).mpr,
      fun walk => walk.imp fun unit edge => (repeats.mem_iff unit edge).mp⟩
  shortestRoute := repeats.routeTo?_eq .anyEdge
  gatedRoute := repeats.routeTo?_eq .compileEdge
  rootsByUnit roots unit := by
    have lists := (Affected.lists_of_impacts other roots).of_same repeats.mem_impact_iff
    exact lists.getElem?_invert_congr (Affected.lists_of_impacts graph roots) unit

/-- A copy of an edge changes no answer about any unit, wherever it stands behind the edge
among the edges of the same unit. -/
theorem answers_of_copy (graph other : BuildGraph N) (unit : N) (front : List (Edge N))
    (edge : Edge N) (middle back : List (Edge N))
    (given : graph.edges unit = front ++ edge :: (middle ++ back))
    (copied : other.edges unit = front ++ edge :: (middle ++ edge :: back))
    (elsewhere : ∀ another, another ≠ unit → other.edges another = graph.edges another) :
    AnswersAlike graph other :=
  (RepeatsEdges.of_copy given copied elsewhere).answersAlike

/-- In `forked` a copy of the runtime edge to `1` may stand behind the edges of `0`. -/
theorem answers_of_copy_forked :
    (forked.withEdges 0 [⟨1, .runtime⟩, ⟨2, .compile⟩, ⟨1, .compile⟩, ⟨1, .runtime⟩]).edges 0 =
        forked.edges 0 ++ [⟨1, .runtime⟩] ∧
      AnswersAlike forked
        (forked.withEdges 0 [⟨1, .runtime⟩, ⟨2, .compile⟩, ⟨1, .compile⟩, ⟨1, .runtime⟩]) := by
  have given : forked.edges 0 = [⟨1, .runtime⟩, ⟨2, .compile⟩, ⟨1, .compile⟩] := by
    simp [forked, ofList]
  have copied : (forked.withEdges 0
      [⟨1, .runtime⟩, ⟨2, .compile⟩, ⟨1, .compile⟩, ⟨1, .runtime⟩]).edges 0 =
        [⟨1, .runtime⟩, ⟨2, .compile⟩, ⟨1, .compile⟩, ⟨1, .runtime⟩] :=
    edges_withEdges 0 0 _
  refine ⟨by rw [copied, given]; rfl, ?_⟩
  apply answers_of_copy forked _ 0 [] ⟨1, .runtime⟩ [⟨2, .compile⟩, ⟨1, .compile⟩] [] given copied
  intro another away
  rw [edges_withEdges, if_neg]
  simpa using away.symm

end BuildGraph

end BuildImpact
