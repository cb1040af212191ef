/-
Module: BuildImpact.Proofs.Impact.Recursion
Layer: Proofs
Purpose: The recursive depth-first walk behind an impact.  `Visit` says what a visit of
  the edges of a unit makes of the discoveries before it.  It has one outcome at most
  and discovers no unit twice.
Imports: BuildImpact.Graph.Impact
Trusted boundary: none
Main exports: Impact.Found, Impact.Visit, Impact.Visit.functional, Impact.Visit.nodup
Open obligations: none
-/
import BuildImpact.Graph.Impact

namespace BuildImpact

variable {N : Type} [BEq N] [Hashable N] {graph : BuildGraph N}

namespace Impact

/-! ### The recursive walk -/

/-- Whether a unit is among the discoveries. -/
def Found (discoveries : List (Discovery N)) (unit : N) : Prop :=
  ∃ discovery ∈ discoveries, discovery.unit = unit

/-- `Visit graph inChain edges before after`: going through `edges` in order, as
edges of a unit that was or was not reached as a compile dependency, turns the
discoveries `before` into `after`.  Both have the latest discovery first. -/
inductive Visit (graph : BuildGraph N) :
    Bool → List (Edge N) → List (Discovery N) → List (Discovery N) → Prop where
  | done (inChain : Bool) (found : List (Discovery N)) :
      Visit graph inChain [] found found
  /-- A unit that is known already is passed over, whatever the edge. -/
  | known {inChain : Bool} {edge : Edge N} {edges : List (Edge N)}
      {before after : List (Discovery N)} (old : Found before edge.target)
      (rest : Visit graph inChain edges before after) :
      Visit graph inChain (edge :: edges) before after
  /-- Outside a chain a runtime edge does not count. -/
  | ignored {target : N} {edges : List (Edge N)} {before after : List (Discovery N)}
      (rest : Visit graph false edges before after) :
      Visit graph false (⟨target, .runtime⟩ :: edges) before after
  /-- An export edge discovers its target and leaves it alone. -/
  | reexported {inChain : Bool} {target : N} {edges : List (Edge N)}
      {before after : List (Discovery N)} (new : ¬ Found before target)
      (rest : Visit graph inChain edges (⟨target, false⟩ :: before) after) :
      Visit graph inChain (⟨target, .reexport⟩ :: edges) before after
  /-- A compile edge discovers its target and visits it as a compile dependency. -/
  | compiled {inChain : Bool} {target : N} {edges : List (Edge N)}
      {before middle after : List (Discovery N)} (new : ¬ Found before target)
      (inner : Visit graph true (graph.edges target) (⟨target, true⟩ :: before) middle)
      (rest : Visit graph inChain edges middle after) :
      Visit graph inChain (⟨target, .compile⟩ :: edges) before after
  /-- Inside a chain a runtime edge acts like a compile edge. -/
  | needed {target : N} {edges : List (Edge N)} {before middle after : List (Discovery N)}
      (new : ¬ Found before target)
      (inner : Visit graph true (graph.edges target) (⟨target, true⟩ :: before) middle)
      (rest : Visit graph true edges middle after) :
      Visit graph true (⟨target, .runtime⟩ :: edges) before after

namespace Visit

/-- The recursive walk has one outcome at most. -/
theorem functional {inChain : Bool} {edges : List (Edge N)}
    {before first second : List (Discovery N)} (one : Visit graph inChain edges before first)
    (two : Visit graph inChain edges before second) : first = second := by
  induction one generalizing second with
  | done =>
      cases two
      rfl
  | known old _ inductionHypothesis =>
      cases two with
      | known _ rest => exact inductionHypothesis rest
      | ignored rest => exact inductionHypothesis rest
      | reexported new | compiled new | needed new => exact absurd old new
  | ignored _ inductionHypothesis =>
      cases two with
      | known _ rest | ignored rest => exact inductionHypothesis rest
  | reexported new _ inductionHypothesis =>
      cases two with
      | known old => exact absurd old new
      | reexported _ rest => exact inductionHypothesis rest
  | compiled new _ _ innerHypothesis restHypothesis =>
      cases two with
      | known old => exact absurd old new
      | compiled _ inner rest =>
          cases innerHypothesis inner
          exact restHypothesis rest
  | needed new _ _ innerHypothesis restHypothesis =>
      cases two with
      | known old => exact absurd old new
      | needed _ inner rest =>
          cases innerHypothesis inner
          exact restHypothesis rest

/-- A visit discovers no unit for a second time. -/
theorem nodup {inChain : Bool} {edges : List (Edge N)} {before after : List (Discovery N)}
    (visit : Visit graph inChain edges before after) (distinct : (before.map (·.unit)).Nodup) :
    (after.map (·.unit)).Nodup := by
  have extend : ∀ {found : List (Discovery N)} {target : N} (expanded : Bool),
      ¬ Found found target → (found.map (·.unit)).Nodup →
      (((⟨target, expanded⟩ : Discovery N) :: found).map (·.unit)).Nodup := by
    intro found target expanded new distinct
    rw [List.map_cons, List.nodup_cons]
    refine ⟨fun member => new ?_, distinct⟩
    obtain ⟨discovery, found, same⟩ := List.mem_map.mp member
    exact ⟨discovery, found, same⟩
  induction visit with
  | done => exact distinct
  | known _ _ inductionHypothesis => exact inductionHypothesis distinct
  | ignored _ inductionHypothesis => exact inductionHypothesis distinct
  | reexported new _ inductionHypothesis =>
      exact inductionHypothesis (extend false new distinct)
  | compiled new _ _ innerHypothesis restHypothesis =>
      exact restHypothesis (innerHypothesis (extend true new distinct))
  | needed new _ _ innerHypothesis restHypothesis =>
      exact restHypothesis (innerHypothesis (extend true new distinct))

end Visit

end Impact

end BuildImpact
