/-
Module: BuildImpact.Proofs.Affected.Transpose
Layer: Proofs
Purpose: The report on affected units is the report on impacts turned around.  One entry
  stands for each unit that some other root recompiles, with exactly these roots, in the
  order and as often as they were asked for; and the roots of a question without units
  are all units of the graph, in the order of their bytes.
Imports: BuildImpact.Command.Run, BuildImpact.Proofs.Affected.Inversion,
  BuildImpact.Proofs.Graph.Units, BuildImpact.Proofs.Json.Value, BuildImpact.Proofs.Report.Order
Trusted boundary: none
Main exports: Query.listed, Query.affectedEntries, Query.mem_affectedEntries_iff,
  Query.chosenRoots_nil, Query.means_answer_iff, Query.affected_transposes_impact
Open obligations: none
-/
import BuildImpact.Command.Run
import BuildImpact.Proofs.Affected.Inversion
import BuildImpact.Proofs.Graph.Units
import BuildImpact.Proofs.Json.Value
import BuildImpact.Proofs.Report.Order

namespace BuildImpact.Query

variable {graph : BuildGraph String}

/-! ### The two reports -/

/-- The units that the report on an impact lists. -/
def listed (graph : BuildGraph String) (root : String) : List String :=
  sortUnits ((graph.impact root).toList.filter (· != root))

theorem value_impact (graph : BuildGraph String) (root : String) :
    ((impact root).report graph).value = .list ((listed graph root).map .string) := rfl

/-- An impact lists its units, but for the root. -/
theorem mem_listed_iff {root unit : String} :
    unit ∈ listed graph root ↔ unit ∈ graph.impact root ∧ unit ≠ root := by
  rw [listed, mem_sortUnits, List.mem_filter, Std.HashSet.mem_toList, bne_iff_ne]

/-- The entries of the report on a batch of roots. -/
def affectedEntries (graph : BuildGraph String) (roots : List String) :
    List (String × List String) :=
  sortEntries (((graph.rootsByUnit roots).toList.map fun entry =>
    (entry.1, entry.2.filter (· != entry.1))).filter (!·.2.isEmpty))

theorem value_affected (graph : BuildGraph String) (units : List String) :
    ((affected units).report graph).value =
      .object ((affectedEntries graph (chosenRoots graph units)).map fun entry =>
        (entry.1, .list (entry.2.map .string))) := rfl

/-- A report asked for as JSON is printed as JSON for its value and for no other. -/
theorem means_answer_iff {options : Options} {prepared : Run.Prepared}
    (json : (options.json || prepared.settings.json) = true) (isColored : Bool) (query : Query)
    {value : Json.Value} :
    Json.Means (Run.answer isColored options prepared query) value ↔
      value = (query.report prepared.graph).value := by
  have printed : Run.answer isColored options prepared query =
      (query.report prepared.graph).value.pretty 0 ++ "\n" := by
    simp [Run.answer, json, Run.unlines, String.join, Report.json]
  rw [printed, Json.means_pretty_iff]

/-! ### The entries -/

/-- Among the roots that recompile a unit, those other than the unit itself list it in
their impacts. -/
theorem filter_filter_impact (graph : BuildGraph String) (roots : List String) (unit : String) :
    (roots.filter fun root => (graph.impact root).contains unit).filter (· != unit) =
      roots.filter fun root => root ≠ unit ∧ unit ∈ listed graph root := by
  rw [List.filter_filter]
  apply List.filter_congr
  intro root _
  rw [Bool.eq_iff_iff, Bool.and_eq_true, bne_iff_ne, Std.HashSet.contains_iff_mem,
    decide_eq_true_eq, mem_listed_iff]
  exact ⟨fun ⟨other, member⟩ => ⟨other, member, other.symm⟩,
    fun ⟨other, member, _⟩ => ⟨other, member⟩⟩

/-- A unit has an entry in the inversion if some root of the batch has it in its impact,
and the entry holds all these roots. -/
theorem getElem?_rootsByUnit_iff {roots : List String} {unit : String} {held : List String} :
    (graph.rootsByUnit roots)[unit]? = some held ↔
      held = (roots.filter fun root => (graph.impact root).contains unit) ∧ held ≠ [] := by
  have lists := Affected.lists_of_impacts graph roots
  have key : unit ∈ graph.rootsByUnit roots ↔ ∃ root ∈ roots, unit ∈ graph.impact root :=
    lists.mem_invert unit
  have value : (graph.rootsByUnit roots).getD unit [] =
      roots.filter fun root => (graph.impact root).contains unit := lists.getD_invert unit
  rw [← value, Std.HashMap.getD_eq_getD_getElem?]
  constructor
  · intro entry
    obtain ⟨root, isRoot, member⟩ := key.mp (Std.HashMap.getElem?_eq_some_iff.mp entry).fst
    rw [Std.HashMap.getD_eq_getD_getElem?, entry, Option.getD_some] at value
    rw [entry, Option.getD_some, value]
    refine ⟨rfl, List.ne_nil_of_mem (a := root) (List.mem_filter.mpr ⟨isRoot, ?_⟩)⟩
    exact Std.HashSet.contains_iff_mem.mpr member
  · rintro ⟨rfl, some⟩
    cases entry : (graph.rootsByUnit roots)[unit]? with
    | none => exact absurd (by rw [entry, Option.getD_none]) some
    | some held => rfl

/-- A unit has an entry in the report if some other root lists it, and the entry holds all
these roots. -/
theorem mem_affectedEntries_iff {roots : List String} {unit : String} {found : List String} :
    (unit, found) ∈ affectedEntries graph roots ↔
      found = (roots.filter fun root => root ≠ unit ∧ unit ∈ listed graph root) ∧
        found ≠ [] := by
  rw [affectedEntries, mem_sortEntries, List.mem_filter, List.mem_map, Bool.not_eq_true',
    List.isEmpty_eq_false_iff, ← filter_filter_impact]
  constructor
  · rintro ⟨⟨⟨other, held⟩, entry, same⟩, some⟩
    cases same
    have holds := Std.HashMap.mem_toList_iff_getElem?_eq_some.mp entry
    rw [(getElem?_rootsByUnit_iff.mp holds).1] at some ⊢
    exact ⟨rfl, some⟩
  · rintro ⟨rfl, some⟩
    refine ⟨⟨(unit, _), ?_, rfl⟩, some⟩
    refine Std.HashMap.mem_toList_iff_getElem?_eq_some.mpr (getElem?_rootsByUnit_iff.mpr ⟨rfl, ?_⟩)
    intro empty
    rw [empty] at some
    exact some rfl

theorem inByteOrder_affectedEntries (graph : BuildGraph String) (roots : List String) :
    Utf8.InByteOrder ((affectedEntries graph roots).map (·.1)) := by
  apply inByteOrder_sortEntries
  refine (nodup_toList (graph.rootsByUnit roots)).sublist ?_
  refine (List.filter_sublist.map _).trans ?_
  rw [List.map_map]
  exact List.Sublist.refl _

/-- Without units to ask about, the roots are all units of the graph. -/
theorem chosenRoots_nil (graph : BuildGraph String) :
    Utf8.InByteOrder (chosenRoots graph []) ∧
      ∀ unit, unit ∈ chosenRoots graph [] ↔ graph.Occurs unit :=
  ⟨inByteOrder_sortUnits BuildGraph.nodup_units,
    fun _ => mem_sortUnits.trans BuildGraph.mem_units_iff⟩

theorem chosenRoots_of_ne_nil {units : List String} (some : units ≠ []) :
    chosenRoots graph units = units := by
  rw [chosenRoots, if_neg (by simpa using some)]

/-- What is printed about affected units is what is printed about impacts, turned around.
The JSON of an impact is a list of units, and that of affected units an object with a list
of roots for each key.  A unit is a key if some other root has it in the list of its impact,
and the list of the key holds exactly these roots, in the order of the roots and as often as
they occur; the keys stand in the order of their bytes.  The roots are the units asked about,
or all units of the graph in the order of their bytes if there are none. -/
theorem affected_transposes_impact (graph : BuildGraph String) (units : List String) :
    ∃ (roots : List String) (listed : String → List String)
      (entries : List (String × List String)),
      (units ≠ [] → roots = units) ∧
      (units = [] → Utf8.InByteOrder roots ∧ ∀ unit, unit ∈ roots ↔ graph.Occurs unit) ∧
      (∀ options settings isColored, (options.json || settings.json) = true →
        (∀ root value,
          Json.Means (Run.answer isColored options ⟨settings, graph⟩ (impact root)) value ↔
            value = .list ((listed root).map .string)) ∧
        ∀ value,
          Json.Means (Run.answer isColored options ⟨settings, graph⟩ (affected units)) value ↔
            value = .object (entries.map fun entry => (entry.1, .list (entry.2.map .string)))) ∧
      Utf8.InByteOrder (entries.map (·.1)) ∧
      (∀ unit, unit ∈ entries.map (·.1) ↔ ∃ root ∈ roots, root ≠ unit ∧ unit ∈ listed root) ∧
      ∀ entry ∈ entries,
        entry.2 = (roots.filter fun root => root ≠ entry.1 ∧ entry.1 ∈ listed root) ∧
          entry.2 ≠ [] ∧ entry.1 ∉ entry.2 := by
  refine ⟨chosenRoots graph units, listed graph, affectedEntries graph (chosenRoots graph units),
    chosenRoots_of_ne_nil, ?_, fun options settings isColored json => ⟨fun root value => ?_,
      fun value => ?_⟩, inByteOrder_affectedEntries graph _, fun unit => ?_, ?_⟩
  · rintro rfl
    exact chosenRoots_nil graph
  · rw [means_answer_iff json, value_impact]
  · rw [means_answer_iff json, value_affected]
  · rw [List.mem_map]
    constructor
    · rintro ⟨⟨other, found⟩, member, rfl⟩
      obtain ⟨rfl, some⟩ := mem_affectedEntries_iff.mp member
      obtain ⟨root, isFound⟩ := List.exists_mem_of_ne_nil _ some
      obtain ⟨isRoot, affects⟩ := List.mem_filter.mp isFound
      exact ⟨root, isRoot, of_decide_eq_true affects⟩
    · rintro ⟨root, isRoot, affects⟩
      refine ⟨(unit, _), mem_affectedEntries_iff.mpr ⟨rfl, ?_⟩, rfl⟩
      exact List.ne_nil_of_mem (List.mem_filter.mpr ⟨isRoot, decide_eq_true affects⟩)
  · rintro ⟨unit, found⟩ member
    obtain ⟨rfl, some⟩ := mem_affectedEntries_iff.mp member
    refine ⟨rfl, some, fun own => ?_⟩
    exact (of_decide_eq_true (List.mem_filter.mp own).2).1 rfl

/-- The lists of units are read off what is printed of the impacts. -/
theorem eq_listed_of_means {options : Options} {settings : Settings} {isColored : Bool}
    (json : (options.json || settings.json) = true) {others : String → List String}
    (printed : ∀ root value,
      Json.Means (Run.answer isColored options ⟨settings, graph⟩ (impact root)) value ↔
        value = .list ((others root).map .string)) :
    others = listed graph := by
  funext root
  have same := (means_answer_iff json isColored (impact root)).mp ((printed root _).mpr rfl)
  have strings := Json.Value.list.inj (same.trans (value_impact graph root))
  exact List.map_injective_iff.mpr (fun _ _ => Json.Value.string.inj) strings

/-- A graph in which `app` and `lib` need each other and `tool` shows `lib`. -/
def namedUnits : BuildGraph String :=
  .ofList [("app", [⟨"lib", .compile⟩]), ("lib", [⟨"app", .compile⟩]),
    ("tool", [⟨"lib", .reexport⟩])]

/-- The JSON for the question about `tool`, `lib`, `app` and `tool` again has a list for
`lib`, which leaves `lib` itself out and holds `tool` twice; that for the question without
units has a list for `lib`, too. -/
theorem affected_transposes_impact_namedUnits :
    (∃ entries : List (String × List String), ("lib", ["tool", "app", "tool"]) ∈ entries ∧
      ∀ value, Json.Means (Run.answer false ⟨none, none, true, 0⟩ ⟨Settings.default, namedUnits⟩
          (affected ["tool", "lib", "app", "tool"])) value ↔
        value = .object (entries.map fun entry => (entry.1, .list (entry.2.map .string)))) ∧
    ∃ entries : List (String × List String), "lib" ∈ entries.map (·.1) ∧
      ∀ value, Json.Means (Run.answer false ⟨none, none, true, 0⟩ ⟨Settings.default, namedUnits⟩
          (affected [])) value ↔
        value = .object (entries.map fun entry => (entry.1, .list (entry.2.map .string))) := by
  have shown : (⟨"lib", .reexport⟩ : Edge String) ∈ namedUnits.edges "tool" := by
    simp [namedUnits, BuildGraph.ofList]
  have needed : (⟨"lib", .compile⟩ : Edge String) ∈ namedUnits.edges "app" := by
    simp [namedUnits, BuildGraph.ofList]
  have byTool : "lib" ∈ listed namedUnits "tool" :=
    mem_listed_iff.mpr ⟨Impact.target_mem_impact shown (.inr rfl), by decide⟩
  have byApp : "lib" ∈ listed namedUnits "app" :=
    mem_listed_iff.mpr ⟨Impact.target_mem_impact needed (.inl rfl), by decide⟩
  constructor
  · obtain ⟨roots, others, entries, given, _, printed, _, keys, values⟩ :=
      affected_transposes_impact namedUnits ["tool", "lib", "app", "tool"]
    obtain ⟨impacts, report⟩ := printed ⟨none, none, true, 0⟩ Settings.default false rfl
    rw [given (by decide), eq_listed_of_means rfl impacts] at keys values
    have key := (keys "lib").mpr ⟨"tool", by decide, by decide, byTool⟩
    obtain ⟨⟨_, found⟩, member, rfl⟩ := List.mem_map.mp key
    have value : found = ["tool", "app", "tool"] :=
      (values _ member).1.trans (by simp [byTool, byApp])
    exact ⟨entries, value ▸ member, report⟩
  · obtain ⟨roots, others, entries, _, all, printed, _, keys, _⟩ :=
      affected_transposes_impact namedUnits []
    obtain ⟨impacts, report⟩ := printed ⟨none, none, true, 0⟩ Settings.default false rfl
    rw [eq_listed_of_means rfl impacts] at keys
    have source := BuildGraph.getElem?_eq_some_of_mem_edges shown
    have isRoot : "tool" ∈ roots :=
      ((all rfl).2 "tool").mpr (.inl (Std.HashMap.getElem?_eq_some_iff.mp source).fst)
    exact ⟨entries, (keys "lib").mpr ⟨"tool", isRoot, by decide, byTool⟩, report⟩

end BuildImpact.Query
