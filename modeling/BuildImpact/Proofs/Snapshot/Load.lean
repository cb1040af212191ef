/-
Module: BuildImpact.Proofs.Snapshot.Load
Layer: Proofs
Purpose: Loading is decided in two phases.  First the text as a whole is a snapshot or it
  is not; only then are the kinds judged, and only in the list that each source is given
  last.  Either a name that is no kind's is reported, the first one of such a list, or
  there is a graph that holds exactly these lists.
Imports: Mathlib.Data.List.Induction, BuildImpact.Proofs.Snapshot.Reader,
  BuildImpact.Snapshot.Load
Trusted boundary: none
Main exports: Snapshot.LastList, Snapshot.FirstUnknown, Snapshot.Matches,
  Snapshot.judge_eq_ok_iff, Snapshot.judge_eq_error_iff, Snapshot.getElem?_latest_eq_some_iff,
  Snapshot.matches_of_build, Snapshot.load_two_phase
Open obligations: none
-/
import Mathlib.Data.List.Induction
import BuildImpact.Proofs.Snapshot.Reader
import BuildImpact.Snapshot.Load

namespace BuildImpact.Snapshot

open Json

variable {N : Type}

/-! ### Judging the kinds of a list -/

/-- The names of the kinds of edges. -/
def kindNames : List String := ["compile", "export", "runtime"]

theorem mem_kindNames_iff {name : String} :
    name ∈ kindNames ↔ ∃ kind, EdgeKind.ofName? name = some kind := by
  simp only [EdgeKind.ofName?_eq_some_iff, kindNames, List.mem_cons, List.not_mem_nil, or_false]
  constructor
  · rintro (rfl | rfl | rfl)
    · exact ⟨.compile, rfl⟩
    · exact ⟨.reexport, rfl⟩
    · exact ⟨.runtime, rfl⟩
  · rintro ⟨kind, rfl⟩
    cases kind <;> decide

theorem ofName?_eq_none_iff {name : String} : EdgeKind.ofName? name = none ↔ name ∉ kindNames := by
  rw [mem_kindNames_iff, ← Option.isSome_iff_exists, Option.not_isSome_iff_eq_none]

/-- An edge with its kind as it is written. -/
def written (edge : Edge N) : WrittenEdge N := ⟨edge.target, edge.kind.name⟩

theorem kindName_mem_of_written (edges : List (Edge N)) :
    ∀ raw ∈ edges.map written, raw.kindName ∈ kindNames := by
  intro raw member
  obtain ⟨edge, -, rfl⟩ := List.mem_map.mp member
  exact mem_kindNames_iff.mpr ⟨edge.kind, EdgeKind.ofName?_name edge.kind⟩

/-- The first name in a list of edges that is no kind's. -/
def FirstUnknown (raws : List (WrittenEdge N)) (name : String) : Prop :=
  ∃ front raw back, raws = front ++ raw :: back ∧
    (∀ known ∈ front, known.kindName ∈ kindNames) ∧ raw.kindName = name ∧ name ∉ kindNames

theorem firstUnknown_cons_iff {raw : WrittenEdge N} {raws : List (WrittenEdge N)} {name : String} :
    FirstUnknown (raw :: raws) name ↔ (raw.kindName = name ∧ name ∉ kindNames) ∨
      (raw.kindName ∈ kindNames ∧ FirstUnknown raws name) := by
  constructor
  · rintro ⟨front, unknown, back, split, known, named, isUnknown⟩
    cases front with
    | nil =>
        cases split
        exact .inl ⟨named, isUnknown⟩
    | cons first front =>
        cases split
        rw [List.forall_mem_cons] at known
        exact .inr ⟨known.1, front, unknown, back, rfl, known.2, named, isUnknown⟩
  · rintro (⟨named, isUnknown⟩ | ⟨first, front, unknown, back, rfl, known, named, isUnknown⟩)
    · exact ⟨[], raw, raws, rfl, fun _ member => absurd member List.not_mem_nil, named, isUnknown⟩
    · exact ⟨raw :: front, unknown, back, rfl, List.forall_mem_cons.mpr ⟨first, known⟩, named,
        isUnknown⟩

/-- A list that is accepted is the list of its edges, entry by entry. -/
theorem judge_eq_ok_iff {raws : List (WrittenEdge N)} {edges : List (Edge N)} :
    judge raws = .ok edges ↔ raws = edges.map written := by
  induction raws generalizing edges with
  | nil => cases edges <;> simp [judge]
  | cons raw raws inductionHypothesis =>
      obtain ⟨target, name⟩ := raw
      simp only [judge]
      cases edges with
      | nil =>
          split
          · simp
          · split <;> simp
      | cons edge edges =>
          obtain ⟨other, kind⟩ := edge
          have head : EdgeKind.ofName? name = some kind ↔ name = kind.name :=
            EdgeKind.ofName?_eq_some_iff
          simp only [List.map_cons, List.cons.injEq, written, WrittenEdge.mk.injEq, ← head,
            ← inductionHypothesis]
          split
          · rename_i none
            simp [none]
          · rename_i found
            split
            · rename_i failed
              simp [failed]
            · rename_i judged
              simp [found, judged, and_assoc]

/-- A list is refused for the first name in it that is no kind's. -/
theorem judge_eq_error_iff {raws : List (WrittenEdge N)} {name : String} :
    judge raws = .error name ↔ FirstUnknown raws name := by
  induction raws with
  | nil => simp [judge, FirstUnknown]
  | cons raw raws inductionHypothesis =>
      rw [firstUnknown_cons_iff, ← inductionHypothesis, judge]
      split
      · rename_i none
        rw [ofName?_eq_none_iff] at none
        simp only [Except.error.injEq, none, false_and, or_false]
        constructor
        · rintro rfl
          exact ⟨rfl, none⟩
        · exact And.left
      · rename_i kind found
        have known : raw.kindName ∈ kindNames := mem_kindNames_iff.mpr ⟨kind, found⟩
        have apart : ¬ (raw.kindName = name ∧ name ∉ kindNames) := by
          rintro ⟨rfl, unknown⟩
          exact unknown known
        split
        · rename_i failed
          simp [failed, known, apart]
        · rename_i judged
          simp [judged, apart]

/-! ### The list that counts -/

/-- The last list that the entries give for a source. -/
def LastList (entries : List (Entry N)) (source : N) (raws : List (WrittenEdge N)) : Prop :=
  ∃ before after, entries = before ++ (source, raws) :: after ∧ ∀ entry ∈ after, entry.1 ≠ source

theorem lastList_snoc_iff {entries : List (Entry N)} {entry : Entry N} {source : N}
    {raws : List (WrittenEdge N)} :
    LastList (entries ++ [entry]) source raws ↔
      entry = (source, raws) ∨ (entry.1 ≠ source ∧ LastList entries source raws) := by
  constructor
  · rintro ⟨before, after, split, others⟩
    rcases List.eq_nil_or_concat after with rfl | ⟨front, last, rfl⟩
    · obtain ⟨-, same⟩ := List.append_inj' split rfl
      exact .inl (List.cons.inj same).1
    · rw [List.concat_eq_append] at split others
      rw [← List.cons_append, ← List.append_assoc] at split
      obtain ⟨rfl, same⟩ := List.append_inj' split rfl
      cases same
      rw [List.forall_mem_append, List.forall_mem_singleton] at others
      exact .inr ⟨others.2, before, front, rfl, others.1⟩
  · rintro (rfl | ⟨other, before, after, rfl, others⟩)
    · exact ⟨entries, [], rfl, fun _ member => absurd member List.not_mem_nil⟩
    · refine ⟨before, after ++ [entry], by simp, ?_⟩
      rw [List.forall_mem_append, List.forall_mem_singleton]
      exact ⟨others, other⟩

theorem exists_lastList_iff {entries : List (Entry N)} {source : N} :
    (∃ raws, LastList entries source raws) ↔ source ∈ entries.map (·.1) := by
  induction entries using List.reverseRecOn with
  | nil => simp [LastList]
  | append_singleton entries entry inductionHypothesis =>
      simp only [lastList_snoc_iff, List.map_append, List.mem_append, ← inductionHypothesis]
      by_cases same : entry.1 = source
      · simp only [List.map_cons, List.map_nil, List.mem_singleton, same, or_true, iff_true]
        exact ⟨entry.2, .inl (by rw [← same])⟩
      · have other : ∀ raws, entry ≠ (source, raws) := by
          rintro raws rfl
          exact same rfl
        have apart : source ≠ entry.1 := fun isSource => same isSource.symm
        simp [other, same, apart]

theorem LastList.mem {entries : List (Entry N)} {unit : N} {raws : List (WrittenEdge N)}
    (last : LastList entries unit raws) : (unit, raws) ∈ entries := by
  obtain ⟨before, after, rfl, -⟩ := last
  exact List.mem_append_right before List.mem_cons_self

theorem lastList_of_nodup {entries : List (Entry N)} {unit : N} {raws : List (WrittenEdge N)}
    (once : (entries.map (·.1)).Nodup) (member : (unit, raws) ∈ entries) :
    LastList entries unit raws := by
  obtain ⟨before, after, rfl⟩ := List.append_of_mem member
  refine ⟨before, after, rfl, fun entry behind same => ?_⟩
  rw [List.map_append, List.map_cons, List.nodup_append, List.nodup_cons] at once
  exact once.2.1.1 (List.mem_map.mpr ⟨entry, behind, same⟩)

variable [BEq N] [Hashable N]

theorem getElem?_latest_eq_some_iff [LawfulBEq N] {entries : List (Entry N)} {source : N}
    {raws : List (WrittenEdge N)} :
    (latest entries)[source]? = some raws ↔ LastList entries source raws := by
  induction entries using List.reverseRecOn with
  | nil => simp [latest, LastList]
  | append_singleton entries entry inductionHypothesis =>
      have last : latest (entries ++ [entry]) = (latest entries).insert entry.1 entry.2 := by
        simp [latest]
      rw [last, lastList_snoc_iff, Std.HashMap.getElem?_insert, ← inductionHypothesis]
      split
      · rename_i isSource
        cases eq_of_beq isSource
        simp [Prod.ext_iff]
      · rename_i isOther
        rw [beq_iff_eq] at isOther
        simp [Prod.ext_iff, isOther]

/-! ### Judging all sources -/

/-- Whatever order the sources are judged in, each has its own list. -/
theorem getElem?_of_judgeAll [LawfulBEq N] {kept : Std.HashMap N (List (WrittenEdge N))}
    {sources : List N} {outgoing : Std.HashMap N (List (Edge N))}
    (judged : judgeAll kept sources = .ok outgoing) (source : N) :
    (source ∈ sources →
      ∃ edges, outgoing[source]? = some edges ∧ judge (kept.getD source []) = .ok edges) ∧
    (source ∉ sources → outgoing[source]? = none) := by
  induction sources generalizing outgoing with
  | nil =>
      cases judged
      simp
  | cons first sources inductionHypothesis =>
      rw [judgeAll] at judged
      split at judged
      · cases judged
      rename_i edges accepted
      split at judged
      · cases judged
      rename_i others rest
      cases judged
      obtain ⟨inside, outside⟩ := inductionHypothesis rest
      rw [Std.HashMap.getElem?_insert]
      split
      · rename_i isFirst
        cases eq_of_beq isFirst
        exact ⟨fun _ => ⟨edges, rfl, accepted⟩,
          fun absent => absurd List.mem_cons_self absent⟩
      · rename_i isOther
        rw [beq_iff_eq] at isOther
        have member : source ∈ first :: sources ↔ source ∈ sources := by
          rw [List.mem_cons]
          exact ⟨fun either => either.resolve_left fun same => isOther same.symm, .inr⟩
        rw [member]
        exact ⟨inside, outside⟩

theorem exists_of_judgeAll {kept : Std.HashMap N (List (WrittenEdge N))} {sources : List N}
    {name : String} (refused : judgeAll kept sources = .error name) :
    ∃ source ∈ sources, judge (kept.getD source []) = .error name := by
  induction sources with
  | nil => cases refused
  | cons first sources inductionHypothesis =>
      rw [judgeAll] at refused
      split at refused
      · rename_i failed
        cases refused
        exact ⟨first, List.mem_cons_self, failed⟩
      split at refused
      · rename_i rest
        cases refused
        obtain ⟨source, member, failed⟩ := inductionHypothesis rest
        exact ⟨source, List.mem_cons_of_mem first member, failed⟩
      · cases refused

theorem getD_latest [LawfulBEq N] {entries : List (Entry N)} {source : N}
    {raws : List (WrittenEdge N)} (last : LastList entries source raws) :
    (latest entries).getD source [] = raws := by
  rw [Std.HashMap.getD_eq_getD_getElem?, getElem?_latest_eq_some_iff.mpr last, Option.getD_some]

/-! ### Graphs of entries -/

/-- Whether a graph holds exactly the lists that its entries give last. -/
structure Matches (graph : BuildGraph N) (entries : List (Entry N)) : Prop where
  /-- Every key is a source, also one with an empty list. -/
  sources : ∀ unit, unit ∈ graph.outgoing ↔ unit ∈ entries.map (·.1)
  edges : ∀ unit raws, LastList entries unit raws → (graph.edges unit).map written = raws

theorem matches_of_build [LawfulBEq N] {entries : List (Entry N)} {graph : BuildGraph N}
    (built : build entries = .ok graph) : Matches graph entries := by
  unfold build at built
  split at built
  · cases built
  rename_i outgoing judged
  cases built
  refine ⟨fun unit => ?_, fun unit raws last => ?_⟩
  · obtain ⟨inside, outside⟩ := getElem?_of_judgeAll judged unit
    rw [← Std.HashMap.isSome_getElem?_iff_mem]
    constructor
    · intro held
      by_contra absent
      rw [outside absent] at held
      cases held
    · intro member
      obtain ⟨edges, found, -⟩ := inside member
      rw [found, Option.isSome_some]
  · have member := exists_lastList_iff.mp ⟨raws, last⟩
    obtain ⟨edges, found, accepted⟩ := (getElem?_of_judgeAll judged unit).1 member
    rw [getD_latest last] at accepted
    rw [BuildGraph.edges, Std.HashMap.getD_eq_getD_getElem?, found, Option.getD_some]
    exact (judge_eq_ok_iff.mp accepted).symm

/-- What the graph is refused for stands in a list that counts. -/
theorem exists_of_build [LawfulBEq N] {entries : List (Entry N)} {name : String}
    (refused : build entries = .error name) :
    ∃ unit raws, LastList entries unit raws ∧ FirstUnknown raws name := by
  unfold build at refused
  split at refused
  · rename_i failed
    cases refused
    obtain ⟨unit, member, judged⟩ := exists_of_judgeAll failed
    obtain ⟨raws, last⟩ := exists_lastList_iff.mpr member
    rw [getD_latest last] at judged
    exact ⟨unit, raws, last, judge_eq_error_iff.mp judged⟩
  · cases refused

theorem Matches.known {graph : BuildGraph N} {entries : List (Entry N)}
    (holds : Matches graph entries) {unit : N} {raws : List (WrittenEdge N)}
    (last : LastList entries unit raws) : ∀ raw ∈ raws, raw.kindName ∈ kindNames := by
  rw [← holds.edges unit raws last]
  exact kindName_mem_of_written (graph.edges unit)

/-! ### Loading -/

variable [SnapshotId N] [SpelledId N]

theorem load_of_document {source : Source} {bytes : List UInt8} {entries : List (Entry N)}
    (form : DocumentForm bytes entries) :
    load source bytes = (build entries).mapError .unknownKind := by
  simp only [load, readDocument_eq_ok_iff.mpr form]
  cases build entries <;> rfl

/-- A text is refused as JSON exactly when it is no snapshot as a whole. -/
theorem load_eq_json_iff {source : Source} {bytes : List UInt8} :
    (∃ error, load source bytes = (.error (.json error) : Except Fault (BuildGraph N))) ↔
      ¬ ∃ entries : List (Entry N), DocumentForm bytes entries := by
  constructor
  · rintro ⟨error, refused⟩ ⟨entries, form⟩
    rw [load_of_document form] at refused
    cases built : build entries <;> rw [built] at refused <;> cases refused
  · intro noDocument
    unfold load
    split
    · exact ⟨_, rfl⟩
    · rename_i entries read
      exact absurd ⟨entries, readDocument_eq_ok_iff.mp read⟩ noDocument

/-- A snapshot with a kind that does not exist, in a list that counts, is refused for the
first one of such a list. -/
theorem load_of_unknown [LawfulBEq N] {bytes : List UInt8} {entries : List (Entry N)}
    (form : DocumentForm bytes entries)
    (unknown : ∃ unit raws, LastList entries unit raws ∧ ∃ raw ∈ raws, raw.kindName ∉ kindNames)
    (source : Source) :
    ∃ unit raws name, LastList entries unit raws ∧ FirstUnknown raws name ∧
      load source bytes = (.error (.unknownKind name) : Except Fault (BuildGraph N)) := by
  obtain ⟨unit, raws, last, raw, member, isUnknown⟩ := unknown
  cases built : build entries with
  | error name =>
      obtain ⟨unit, raws, last, first⟩ := exists_of_build built
      refine ⟨unit, raws, name, last, first, ?_⟩
      rw [load_of_document form, built]
      rfl
  | ok graph => exact absurd ((matches_of_build built).known last raw member) isUnknown

/-- A snapshot whose lists that count name existing kinds only is a graph. -/
theorem load_of_known [LawfulBEq N] {bytes : List UInt8} {entries : List (Entry N)}
    (form : DocumentForm bytes entries)
    (known : ∀ unit raws, LastList entries unit raws → ∀ raw ∈ raws, raw.kindName ∈ kindNames) :
    ∃ graph : BuildGraph N, (∀ source, load source bytes = .ok graph) ∧ Matches graph entries := by
  cases built : build entries with
  | error name =>
      obtain ⟨unit, raws, last, front, raw, back, rfl, -, rfl, unknown⟩ := exists_of_build built
      have member : raw ∈ front ++ raw :: back := List.mem_append_right front List.mem_cons_self
      exact absurd (known unit _ last raw member) unknown
  | ok graph =>
      refine ⟨graph, fun source => ?_, matches_of_build built⟩
      rw [load_of_document form, built]
      rfl

/-- Loading is decided in two phases.  A text is refused as JSON exactly when it is no
snapshot as a whole, whatever kinds it names.  Of a snapshot, only the list that each
source is given last counts: if one of them names a kind that does not exist, the first
such name of one of them is reported; otherwise the graph has exactly the keys as its
sources, each with the edges of its last list in their order. -/
theorem load_two_phase [LawfulBEq N] (source : Source) (bytes : List UInt8) :
    ((∃ error, load source bytes = (.error (.json error) : Except Fault (BuildGraph N))) ↔
      ¬ ∃ entries : List (Entry N), DocumentForm bytes entries) ∧
    ∀ entries : List (Entry N), DocumentForm bytes entries →
      ((∃ unit raws, LastList entries unit raws ∧ ∃ raw ∈ raws, raw.kindName ∉ kindNames) →
        ∃ unit raws name, LastList entries unit raws ∧ FirstUnknown raws name ∧
          load source bytes = (.error (.unknownKind name) : Except Fault (BuildGraph N))) ∧
      ((∀ unit raws, LastList entries unit raws → ∀ raw ∈ raws, raw.kindName ∈ kindNames) →
        ∃ graph : BuildGraph N, load source bytes = .ok graph ∧ Matches graph entries) := by
  refine ⟨load_eq_json_iff, fun entries form => ⟨fun unknown => ?_, fun known => ?_⟩⟩
  · exact load_of_unknown form unknown source
  · obtain ⟨graph, loaded, holds⟩ := load_of_known form known
    exact ⟨graph, loaded source, holds⟩

/-- In the only list of its source, the kind `zap` is refused, and not the `zip` behind it.
In a list that is replaced it goes unnoticed, and in a text that breaks off behind it the
text is what is refused. -/
theorem load_two_phase_zap :
    load (N := String) .text (Utf8.encode "\x7b\"a\":[[\"b\",\"zap\"],[\"c\",\"zip\"]]\x7d") =
      .error (.unknownKind "zap") ∧
    (∃ graph : BuildGraph String,
      load .text (Utf8.encode "\x7b\"a\":[[\"b\",\"zap\"]],\"a\":[]\x7d") = .ok graph ∧
        (∀ unit, unit ∈ graph.outgoing ↔ unit = "a") ∧ graph.edges "a" = []) ∧
    ∃ error, load (N := String) .text (Utf8.encode "\x7b\"a\":[[\"b\",\"zap\"]]") =
      .error (.json error) := by
  refine ⟨?_, ?_, ?_⟩
  · have form : DocumentForm (Utf8.encode "\x7b\"a\":[[\"b\",\"zap\"],[\"c\",\"zip\"]]\x7d")
        [("a", [⟨"b", "zap"⟩, ⟨"c", "zip"⟩])] :=
      toOption_readDocument_eq_some_iff.mp (by decide +kernel)
    have only : ∀ unit raws, LastList [("a", [⟨"b", "zap"⟩, ⟨"c", "zip"⟩])] unit raws ↔
        unit = "a" ∧ raws = [⟨"b", "zap"⟩, ⟨"c", "zip"⟩] := by
      intro unit raws
      rw [← getElem?_latest_eq_some_iff]
      by_cases same : "a" = unit
      · simp [latest, ← same, eq_comm]
      · have other : unit ≠ "a" := fun isUnit => same isUnit.symm
        simp [latest, same, other]
    obtain ⟨unit, raws, name, last, first, refused⟩ := ((load_two_phase .text _).2 _ form).1
      ⟨"a", _, (only _ _).mpr ⟨rfl, rfl⟩, ⟨"b", "zap"⟩, List.mem_cons_self, by decide⟩
    obtain ⟨rfl, rfl⟩ := (only _ _).mp last
    rw [← judge_eq_error_iff] at first
    cases first
    exact refused
  · have form : DocumentForm (Utf8.encode "\x7b\"a\":[[\"b\",\"zap\"]],\"a\":[]\x7d")
        [("a", [⟨"b", "zap"⟩]), ("a", [])] :=
      toOption_readDocument_eq_some_iff.mp (by decide +kernel)
    have only : ∀ unit raws, LastList [("a", [⟨"b", "zap"⟩]), ("a", [])] unit raws ↔
        unit = "a" ∧ raws = [] := by
      intro unit raws
      rw [← getElem?_latest_eq_some_iff]
      by_cases same : "a" = unit
      · simp [latest, ← same, eq_comm]
      · have other : unit ≠ "a" := fun isUnit => same isUnit.symm
        simp [latest, same, other]
    obtain ⟨graph, loaded, holds⟩ := ((load_two_phase .text _).2 _ form).2 fun unit raws last => by
      rw [((only unit raws).mp last).2]
      exact fun raw member => absurd member List.not_mem_nil
    refine ⟨graph, loaded, fun unit => ?_, ?_⟩
    · rw [holds.sources]
      simp
    · exact List.map_eq_nil_iff.mp (holds.edges "a" [] ((only _ _).mpr ⟨rfl, rfl⟩))
  · refine (load_two_phase .text _).1.mpr ?_
    rintro ⟨entries, form⟩
    have none : (readDocument (Utf8.encode "\x7b\"a\":[[\"b\",\"zap\"]]")).toOption =
        (Option.none : Option (List (Entry String))) := by decide +kernel
    rw [toOption_readDocument_eq_some_iff.mpr form] at none
    cases none

end BuildImpact.Snapshot
