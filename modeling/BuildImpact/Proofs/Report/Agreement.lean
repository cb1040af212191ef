/-
Module: BuildImpact.Proofs.Report.Agreement
Layer: Proofs
Purpose: A report as text and as JSON.  The text shows the entries of the JSON in groups:
  how many there are, the first of them, and how many more there are.  No entry is left out
  of the groups or in two of them, no depth is passed over, and the summaries count the
  units other than the one asked about.
Imports: BuildImpact.Proofs.Affected.Transpose, BuildImpact.Proofs.Impact.Chains,
  BuildImpact.Proofs.Report.Groups
Trusted boundary: none
Main exports: Report.Excerpt, Report.Excerpt.Shows, Report.unitLines_eq, Report.impactText,
  Report.closureText, Report.depthsText, Query.text_agrees_with_json
Open obligations: none
-/
import BuildImpact.Proofs.Affected.Transpose
import BuildImpact.Proofs.Impact.Chains
import BuildImpact.Proofs.Report.Groups

namespace BuildImpact

namespace Report

open Utf8 (InByteOrder)

/-! ### What a text shows of a group -/

/-- What a text shows of a group of units: how many there are, the first of them, and how
many more there are, if it says so. -/
structure Excerpt where
  count : Nat
  listed : List String
  more : Option Nat

namespace Excerpt

/-- The lines of an excerpt: one for each listed unit and one for those that are left out,
or a remark if there is no unit. -/
def lines (excerpt : Excerpt) (remark : String) : List String :=
  if excerpt.count = 0 then ["    " ++ remark]
  else
    excerpt.listed.map ("    • " ++ ·) ++
      excerpt.more.toList.map fun more => "    • ... and " ++ toString more ++ " more"

/-- Whether an excerpt shows a group of units as far as `limit` allows. -/
structure Shows (excerpt : Excerpt) (limit : Nat) (units : List String) : Prop where
  inOrder : InByteOrder units
  count : excerpt.count = units.length
  listed : excerpt.listed = units.take (min units.length limit)
  more : ∀ rest, excerpt.more = some rest ↔ limit < units.length ∧ rest = units.length - limit

/-- The excerpt of a group of units. -/
def ofUnits (limit : Nat) (units : List String) : Excerpt where
  count := units.length
  listed := units.take limit
  more := if limit < units.length then some (units.length - limit) else none

theorem shows_ofUnits (limit : Nat) {units : List String} (ordered : InByteOrder units) :
    (ofUnits limit units).Shows limit units where
  inOrder := ordered
  count := rfl
  listed := by rw [ofUnits, min_comm, ← List.take_eq_take_min]
  more := by
    intro rest
    rw [ofUnits]
    split
    · rename_i less
      rw [Option.some.injEq, and_iff_right less, eq_comm]
    · rename_i enough
      exact ⟨nofun, fun ⟨less, _⟩ => absurd less enough⟩

/-- No other excerpt shows the group. -/
theorem Shows.eq_ofUnits {excerpt : Excerpt} {limit : Nat} {units : List String}
    (fits : excerpt.Shows limit units) : excerpt = ofUnits limit units := by
  obtain ⟨count, listed, more⟩ := excerpt
  have same := shows_ofUnits limit fits.inOrder
  rw [ofUnits, mk.injEq]
  refine ⟨fits.count.trans same.count.symm, fits.listed.trans same.listed.symm, ?_⟩
  exact Option.ext fun rest => (fits.more rest).trans (same.more rest).symm

end Excerpt

/-- Without paints the lines of a group are those of its excerpt. -/
theorem unitLines_eq (limit : Nat) (units : List String) (remark : String) :
    unitLines ⟨false, limit⟩ units remark = (Excerpt.ofUnits limit units).lines remark := by
  have empty : units.isEmpty = true ↔ (Excerpt.ofUnits limit units).count = 0 := by
    rw [List.isEmpty_iff, Excerpt.ofUnits, List.length_eq_zero_iff]
  rw [unitLines, Excerpt.lines]
  split
  · rename_i none
    rw [if_pos (empty.mp none)]
    rfl
  · rename_i some
    rw [if_neg (mt empty.mpr some)]
    dsimp only [Excerpt.ofUnits]
    split
    · rfl
    · rw [Option.toList_none, List.map_nil, List.append_nil]
      rfl

/-! ### The texts -/

/-- The text of an impact. -/
def impactText (root : String) (excerpt : Excerpt) : List String :=
  ["Compile impact of \"" ++ root ++ "\":", ""] ++
    excerpt.lines "(a change to no other unit recompiles it)" ++
    ["", "Summary: " ++ toString excerpt.count ++ " units can force a recompile"]

/-- The text of a closure. -/
def closureText (root : String) (excerpts : Linkage → Excerpt) : List String :=
  ["Dependencies of \"" ++ root ++ "\":"] ++
    ["", "  Compile (" ++ toString (excerpts .compile).count ++ "):"] ++
    (excerpts .compile).lines "(none)" ++
    ["", "  Export (" ++ toString (excerpts .reexport).count ++ "):"] ++
    (excerpts .reexport).lines "(none)" ++
    ["", "  Runtime (" ++ toString (excerpts .runtime).count ++ "):"] ++
    (excerpts .runtime).lines "(none)"

/-- The text of depths, with a group for each depth from one to the deepest. -/
def depthsText (root : String) (others deepest : Nat) (excerpts : Nat → Excerpt) : List String :=
  ["Reachable units from \"" ++ root ++ "\":", ""] ++
    (if deepest = 0 then ["    (no dependencies)"] else []) ++
    ((List.range' 1 deepest).flatMap fun depth =>
      ("  Depth " ++ toString depth ++ " " ++
        (if depth = 1 then "direct" else "transitive") ++ " (" ++
        toString (excerpts depth).count ++ "):") :: (excerpts depth).lines "(none)") ++
    ["", "Summary: " ++ toString others ++ " units (max depth: " ++
      toString deepest ++ ")"]

variable {limit : Nat} {root : String}

theorem lines_impact (units : List String) :
    (Report.impact root units).lines ⟨false, limit⟩ =
      impactText root (Excerpt.ofUnits limit units) := by
  rw [lines, impactLines, unitLines_eq]
  rfl

theorem lines_closure (links : List (String × Linkage)) :
    (Report.closure root links).lines ⟨false, limit⟩ =
      closureText root fun link => Excerpt.ofUnits limit (linkageGroup links link) := by
  simp only [lines, closureLines, linkageLines, Linkage.all, List.flatMap_cons, List.flatMap_nil,
    List.append_nil, unitLines_eq]
  simp only [closureText, List.append_assoc]
  rfl

theorem depthLines_eq (depth : Nat) (units : List String) :
    depthLines ⟨false, limit⟩ (depth, units) =
      ("  Depth " ++ Decimal.natural depth ++ " " ++
        (if depth = 1 then "direct" else "transitive") ++ " (" ++
        Decimal.natural (Excerpt.ofUnits limit units).count ++ "):") ::
        (Excerpt.ofUnits limit units).lines "(none)" := by
  have title : "  " ++ ("Depth " ++ Decimal.natural depth) =
      "  Depth " ++ Decimal.natural depth := by
    rw [← String.append_assoc]
    rfl
  rw [depthLines, unitLines_eq]
  simp only [Layout.paint, Paint.on_false, title, Excerpt.ofUnits]

/-- Where no depth is passed over, the text of depths has a group for each. -/
theorem lines_depths {depths : List (String × Nat)}
    (filled : ∀ depth ∈ List.range' 1 (deepest depths), ∃ unit, (unit, depth) ∈ depths) :
    (Report.depths root depths).lines ⟨false, limit⟩ =
      depthsText root (depths.length - 1) (deepest depths) fun depth =>
        Excerpt.ofUnits limit (depthGroup depths depth) := by
  have noGroup : ((List.range' 1 (deepest depths)).map fun depth =>
      (depth, depthGroup depths depth)).isEmpty = true ↔ deepest depths = 0 := by
    rw [List.isEmpty_iff, List.map_eq_nil_iff, List.range'_eq_nil_iff]
  have summary : summaryLine ⟨false, limit⟩ (depths.length - 1)
        (" units (max depth: " ++ Decimal.natural (deepest depths) ++ ")") =
      "Summary: " ++ Decimal.natural (depths.length - 1) ++ " units (max depth: " ++
        Decimal.natural (deepest depths) ++ ")" := by
    rw [String.append_assoc, String.append_assoc, String.append_assoc]
    rfl
  simp only [lines, depthsLines, depthGroups_eq_map filled, noGroup, List.flatMap_map,
    depthLines_eq, summary]
  rfl

end Report

namespace Query

open Report (Excerpt impactText closureText depthsText linkageGroup depthGroup deepest)
open Utf8 (InByteOrder)

variable {graph : BuildGraph String} {root : String}

/-! ### The entries of the reports -/

/-- The links that the report on a closure shows. -/
def closureEntries (graph : BuildGraph String) (root : String) : List (String × Linkage) :=
  sortEntries ((graph.closure root).toList.filter (·.1 != root))

/-- The depths that the report on depths shows. -/
def depthEntries (graph : BuildGraph String) (root : String) : List (String × Nat) :=
  sortEntries (graph.depths root).toList

theorem inByteOrder_listed (graph : BuildGraph String) (root : String) :
    InByteOrder (listed graph root) :=
  inByteOrder_sortUnits ((Std.HashSet.distinct_toList.imp ne_of_beq_false).filter _)

theorem inByteOrder_closureEntries (graph : BuildGraph String) (root : String) :
    InByteOrder ((closureEntries graph root).map (·.1)) :=
  inByteOrder_sortEntries ((nodup_toList _).sublist (List.filter_sublist.map _))

theorem inByteOrder_depthEntries (graph : BuildGraph String) (root : String) :
    InByteOrder ((depthEntries graph root).map (·.1)) :=
  inByteOrder_sortEntries (nodup_toList _)

theorem mem_closureEntries_iff {unit : String} {link : Linkage} :
    (unit, link) ∈ closureEntries graph root ↔
      (graph.closure root)[unit]? = some link ∧ unit ≠ root := by
  rw [closureEntries, mem_sortEntries, List.mem_filter, bne_iff_ne,
    Std.HashMap.mem_toList_iff_getElem?_eq_some]

theorem mem_depthEntries_iff {unit : String} {depth : Nat} :
    (unit, depth) ∈ depthEntries graph root ↔ (graph.depths root)[unit]? = some depth := by
  rw [depthEntries, mem_sortEntries, Std.HashMap.mem_toList_iff_getElem?_eq_some]

/-- The root has the depth zero. -/
theorem root_mem_depthEntries (graph : BuildGraph String) (root : String) :
    (root, 0) ∈ depthEntries graph root :=
  mem_depthEntries_iff.mpr (Depths.getElem?_depths_iff.mpr
    (Depths.nearest_of_onLayer (.inl ⟨rfl, rfl⟩)))

/-- Every other unit has a greater one. -/
theorem pos_of_mem_depthEntries {unit : String} {depth : Nat}
    (member : (unit, depth) ∈ depthEntries graph root) (other : unit ≠ root) : 0 < depth := by
  have nearest := Depths.getElem?_depths_iff.mp (mem_depthEntries_iff.mp member)
  refine Nat.pos_of_ne_zero ?_
  rintro rfl
  exact other nearest.arrives.eq_source

/-- The deepest depth is the largest one. -/
theorem isGreatest_depthEntries (graph : BuildGraph String) (root : String) :
    IsGreatest {depth | ∃ unit, (unit, depth) ∈ depthEntries graph root}
      (deepest (depthEntries graph root)) :=
  Report.isGreatest_deepest (root_mem_depthEntries graph root)

/-- No depth down to the deepest is passed over. -/
theorem exists_mem_depthEntries {depth : Nat} (le : depth ≤ deepest (depthEntries graph root)) :
    ∃ unit, (unit, depth) ∈ depthEntries graph root := by
  obtain ⟨unit, atDeepest⟩ := (isGreatest_depthEntries graph root).1
  have nearest := Depths.getElem?_depths_iff.mp (mem_depthEntries_iff.mp atDeepest)
  obtain ⟨other, nearer⟩ := Depths.exists_nearest_of_le le nearest
  exact ⟨other, mem_depthEntries_iff.mpr (Depths.getElem?_depths_iff.mpr nearer)⟩

theorem mem_range_deepest_iff {depth : Nat} :
    depth ∈ List.range' 1 (deepest (depthEntries graph root)) ↔
      0 < depth ∧ depth ≤ deepest (depthEntries graph root) := by
  rw [List.mem_range'_1]
  omega

/-! ### The reports as text -/

variable {limit : Nat}

theorem lines_impactReport (graph : BuildGraph String) (root : String) :
    ((impact root).report graph).lines ⟨false, limit⟩ =
      impactText root (Excerpt.ofUnits limit (listed graph root)) :=
  Report.lines_impact _

theorem lines_closureReport (graph : BuildGraph String) (root : String) :
    ((closure root).report graph).lines ⟨false, limit⟩ =
      closureText root fun link =>
        Excerpt.ofUnits limit (linkageGroup (closureEntries graph root) link) :=
  Report.lines_closure _

/-- The text of depths counts the units other than the root and passes over no depth. -/
theorem lines_depthsReport (graph : BuildGraph String) (root : String) :
    ((depths root).report graph).lines ⟨false, limit⟩ =
      depthsText root ((depthEntries graph root).filter (·.1 != root)).length
        (deepest (depthEntries graph root)) fun depth =>
          Excerpt.ofUnits limit (depthGroup (depthEntries graph root) depth) := by
  -- The text takes one from the number of entries, and the entry of the root is always there.
  have among : root ∈ (depthEntries graph root).map (·.1) :=
    List.mem_map_of_mem (root_mem_depthEntries graph root)
  rw [Report.length_filter_ne (inByteOrder_depthEntries graph root).nodup among]
  exact Report.lines_depths fun depth inRange =>
    exists_mem_depthEntries (mem_range_deepest_iff.mp inRange).2

/-- Each entry of depths, but for that of the root, falls into the group of one depth. -/
theorem existsUnique_depthGroup {entry : String × Nat}
    (member : entry ∈ depthEntries graph root) (other : entry.1 ≠ root) :
    ∃! depth, depth ∈ List.range' 1 (deepest (depthEntries graph root)) ∧
      entry.1 ∈ depthGroup (depthEntries graph root) depth := by
  obtain ⟨depth, inGroup, only⟩ :=
    Report.existsUnique_group (inByteOrder_depthEntries graph root).nodup member
  have among : (entry.1, depth) ∈ depthEntries graph root := Report.mem_group_iff.mp inGroup
  have positive := pos_of_mem_depthEntries among other
  have bound : depth ≤ deepest (depthEntries graph root) :=
    (isGreatest_depthEntries graph root).2 ⟨_, among⟩
  exact ⟨depth, ⟨mem_range_deepest_iff.mpr ⟨positive, bound⟩, inGroup⟩,
    fun third holds => only third holds.2⟩

/-- No group of a depth down to the deepest is empty. -/
theorem depthGroup_ne_nil {depth : Nat}
    (inRange : depth ∈ List.range' 1 (deepest (depthEntries graph root))) :
    depthGroup (depthEntries graph root) depth ≠ [] := by
  obtain ⟨unit, member⟩ := exists_mem_depthEntries (mem_range_deepest_iff.mp inRange).2
  have listed : unit ∈ depthGroup (depthEntries graph root) depth :=
    Report.mem_group_iff.mpr member
  exact List.ne_nil_of_mem listed

/-! ### What is printed -/

/-- A report asked for as text is printed line by line. -/
theorem answer_text {options : Options} {prepared : Run.Prepared}
    (text : (options.json || prepared.settings.json) = false) (query : Query) :
    Run.answer false options prepared query =
      String.join (((query.report prepared.graph).lines
        ⟨false, prepared.settings.maxDisplay⟩).map (· ++ "\n")) := by
  simp [Run.answer, text, Run.unlines]

/-- The names under which links are printed as JSON. -/
theorem value_closure (graph : BuildGraph String) (root : String) :
    ((closure root).report graph).value =
      .object ((closureEntries graph root).map fun entry => (entry.1, .string
        (match entry.2 with
        | .compile => "compile"
        | .reexport => "export"
        | .runtime => "runtime"))) := by
  have named : ∀ entry : String × Linkage, (entry.1, Json.Value.string entry.2.name) =
      (entry.1, .string
        (match entry.2 with
        | .compile => "compile"
        | .reexport => "export"
        | .runtime => "runtime")) := by
    rintro ⟨unit, link⟩
    cases link <;> rfl
  exact congrArg Json.Value.object (List.map_congr_left fun entry _ => named entry)

/-- The text and the JSON of an impact, of a closure and of depths describe the same data,
whatever the number of units that a group may list.  The JSON is a list of units for an
impact, and an object with an entry for each unit for the others.  The text of an impact
lists the units of the JSON.  Each entry of a closure falls into one of the three groups of
links, and each entry of depths, but for that of the root, into one of the groups of depths,
of which there is one for each depth from one to the deepest, and none is empty.  The text
gives for each group the number of its entries and the first of them in the order of bytes;
it says how many more there are if there are more than it may list.  The summaries give the
number of units other than the root, and the largest depth. -/
theorem text_agrees_with_json (graph : BuildGraph String) (root : String) (options : Options)
    (settings : Settings) (isText : (options.json || settings.json) = false) :
    let text := Run.answer false options ⟨settings, graph⟩
    let data := Run.answer false { options with json := true } ⟨settings, graph⟩
    (∃ units excerpt,
      (∀ value, Json.Means (data (impact root)) value ↔ value = .list (units.map .string)) ∧
      text (impact root) = String.join ((impactText root excerpt).map (· ++ "\n")) ∧
      (∀ unit, unit ∈ units ↔ unit ∈ graph.impact root ∧ unit ≠ root) ∧
      excerpt.Shows settings.maxDisplay units) ∧
    (∃ (links : List (String × Linkage)) (excerpts : Linkage → Excerpt),
      (∀ value, Json.Means (data (closure root)) value ↔
        value = .object (links.map fun entry => (entry.1, .string
          (match entry.2 with
          | .compile => "compile"
          | .reexport => "export"
          | .runtime => "runtime")))) ∧
      text (closure root) = String.join ((closureText root excerpts).map (· ++ "\n")) ∧
      InByteOrder (links.map (·.1)) ∧
      (∀ unit link, (unit, link) ∈ links ↔
        (graph.closure root)[unit]? = some link ∧ unit ≠ root) ∧
      (∀ entry ∈ links, ∃! link, entry.1 ∈ linkageGroup links link) ∧
      ∀ link, (excerpts link).Shows settings.maxDisplay (linkageGroup links link)) ∧
    ∃ (depths : List (String × Nat)) (deepest : Nat) (excerpts : Nat → Excerpt),
      (∀ value, Json.Means (data (Query.depths root)) value ↔
        value = .object (depths.map fun entry => (entry.1, .number entry.2))) ∧
      text (Query.depths root) = String.join
        ((depthsText root (depths.filter (·.1 != root)).length deepest excerpts).map
          (· ++ "\n")) ∧
      InByteOrder (depths.map (·.1)) ∧
      (∀ unit depth, (unit, depth) ∈ depths ↔ (graph.depths root)[unit]? = some depth) ∧
      IsGreatest {depth | ∃ unit, (unit, depth) ∈ depths} deepest ∧
      (∀ entry ∈ depths, entry.1 ≠ root →
        ∃! depth, depth ∈ List.range' 1 deepest ∧ entry.1 ∈ depthGroup depths depth) ∧
      ∀ depth ∈ List.range' 1 deepest, depthGroup depths depth ≠ [] ∧
        (excerpts depth).Shows settings.maxDisplay (depthGroup depths depth) := by
  have asData (query : Query) (value : Json.Value) :
      Json.Means (Run.answer false { options with json := true } ⟨settings, graph⟩ query) value ↔
        value = (query.report graph).value := means_answer_iff rfl false query
  have asText (query : Query) : Run.answer false options ⟨settings, graph⟩ query =
      String.join (((query.report graph).lines ⟨false, settings.maxDisplay⟩).map (· ++ "\n")) :=
    answer_text isText query
  intro text data
  refine ⟨⟨listed graph root, _, asData _, (asText _).trans ?impact, fun _ => mem_listed_iff,
      Excerpt.shows_ofUnits _ (inByteOrder_listed graph root)⟩,
    ⟨closureEntries graph root, _, ?names, (asText _).trans ?closure,
      inByteOrder_closureEntries graph root, fun _ _ => mem_closureEntries_iff,
      fun _ member =>
        Report.existsUnique_group (inByteOrder_closureEntries graph root).nodup member,
      fun link => Excerpt.shows_ofUnits _
        (Report.inByteOrder_group (inByteOrder_closureEntries graph root) link)⟩,
    ⟨depthEntries graph root, deepest (depthEntries graph root), _, asData _,
      (asText _).trans ?depths, inByteOrder_depthEntries graph root,
      fun _ _ => mem_depthEntries_iff, isGreatest_depthEntries graph root,
      fun _ => existsUnique_depthGroup, fun depth inRange => ⟨depthGroup_ne_nil inRange,
        Excerpt.shows_ofUnits _
          (Report.inByteOrder_group (inByteOrder_depthEntries graph root) depth)⟩⟩⟩
  case impact => rw [lines_impactReport]
  case names =>
    intro value
    rw [asData, value_closure]
  case closure => rw [lines_closureReport]
  case depths => rw [lines_depthsReport]

/-- A graph in which `app` needs `tool` and `lib`. -/
def twoTargets : BuildGraph String :=
  .ofList [("app", [⟨"tool", .compile⟩, ⟨"lib", .compile⟩])]

/-- Of the two units that `app` needs the text lists one where it may list no more, and says
that there is another, and the JSON is a list of both. -/
theorem text_agrees_with_json_twoTargets :
    Run.answer false ⟨none, none, false, 0⟩ ⟨{ maxDisplay := 1 }, twoTargets⟩ (impact "app") =
      "Compile impact of \"app\":\n\n    • lib\n    • ... and 1 more\n\n" ++
        "Summary: 2 units can force a recompile\n" ∧
    ∀ value, Json.Means (Run.answer false ⟨none, none, true, 0⟩ ⟨{ maxDisplay := 1 }, twoTargets⟩
        (impact "app")) value ↔
      value = .list [.string "lib", .string "tool"] := by
  obtain ⟨⟨units, excerpt, data, text, members, fits⟩, _⟩ :=
    text_agrees_with_json twoTargets "app" ⟨none, none, false, 0⟩ { maxDisplay := 1 } rfl
  have edges : twoTargets.edges "app" = [⟨"tool", .compile⟩, ⟨"lib", .compile⟩] := by
    simp [twoTargets, BuildGraph.ofList]
  have inside : ∀ unit, ∀ edge ∈ twoTargets.edges unit, edge.target ∈ ["lib", "tool"] := by
    rw [twoTargets, BuildGraph.forall_edges_ofList]
    decide
  -- The hashes of texts do not evaluate, so the units are read off the edges.
  have isUnits : units = ["lib", "tool"] := by
    refine fits.inOrder.eq_of_mem_iff (by simp [InByteOrder]; decide) fun unit => ?_
    rw [members]
    constructor
    · rintro ⟨member, other⟩
      have reached : unit ∈ ["app", "lib", "tool"] :=
        (Impact.reaches_of_mem_impact member).closed
          (fun unit _ edge given => List.mem_cons_of_mem _ (inside unit edge given)) (by decide)
      exact (List.mem_cons.mp reached).resolve_left other
    · intro member
      have target : ∃ edge ∈ twoTargets.edges "app", edge.kind = .compile ∧ edge.target = unit := by
        rw [edges]
        simpa [or_comm, eq_comm] using member
      obtain ⟨edge, given, compile, rfl⟩ := target
      refine ⟨Impact.target_mem_impact given (.inl compile), ?_⟩
      rintro own
      rw [own] at member
      exact absurd member (by decide)
  rw [isUnits] at data fits
  refine ⟨?_, data⟩
  rw [text, fits.eq_ofUnits]
  decide +kernel

end Query

end BuildImpact
