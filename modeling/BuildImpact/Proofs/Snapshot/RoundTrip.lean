/-
Module: BuildImpact.Proofs.Snapshot.RoundTrip
Layer: Proofs
Purpose: A graph that is written as a snapshot is loaded again as the same graph,
  whichever order its sources are written in.  Units are spelled in two ways, as a key
  and as a target, and both are read back to the unit.
Imports: Mathlib.Data.List.Nodup, BuildImpact.Proofs.Json.Print,
  BuildImpact.Proofs.Snapshot.Load, BuildImpact.Snapshot.Write
Trusted boundary: none
Main exports: SpelledOut, Snapshot.documentForm_write, Snapshot.Serializes,
  Snapshot.RoundTrips, Snapshot.snapshots_roundTrip
Open obligations: none
-/
import Mathlib.Data.List.Nodup
import BuildImpact.Proofs.Json.Print
import BuildImpact.Proofs.Snapshot.Load
import BuildImpact.Snapshot.Write

namespace BuildImpact

open Json Utf8

/-! ### Units -/

/-- Units that are written as they are spelled. -/
class SpelledOut (N : Type) [SnapshotId N] [SpelledId N] [WritableId N] : Prop where
  key : ∀ (unit : N) (rest : List UInt8), ∃ body,
    encode (WritableId.key unit) ++ rest = 0x22 :: body ∧ SpelledId.Key body unit rest
  target : ∀ (unit : N) (rest : List UInt8),
    SpelledId.Target (encode (WritableId.target unit) ++ rest) unit rest

instance : SpelledOut String where
  key := stringBody_quote
  target := stringBody_quote

theorem IntegerWidth.spelled_decimal {N : Type} [IntegerWidth N] (number : N) (rest : List UInt8) :
    Spelled (encode (Decimal.integer (toInt number)) ++ rest) number rest :=
  ⟨toInt number, integer_decimal (toInt number) rest, ofInt?_toInt number⟩

instance {N : Type} [IntegerWidth N] [NarrowWidth N] : SpelledOut N where
  key number rest := by
    have quote : encode "\"" = [0x22] := by decide
    refine ⟨encode (Decimal.integer (IntegerWidth.toInt number)) ++ 0x22 :: rest, ?_,
      IntegerWidth.spelled_decimal number (0x22 :: rest)⟩
    simp [WritableId.key, quote]
  target := IntegerWidth.spelled_decimal

namespace Snapshot

/-! ### Lists -/

theorem encode_commaSeparated_cons (text : String) (texts : List String) :
    encode (commaSeparated (text :: texts)) =
      encode text ++ texts.flatMap fun other => 0x2c :: encode other := by
  have comma : encode "," = [0x2c] := by decide
  induction texts generalizing text with
  | nil => simp [commaSeparated]
  | cons next texts inductionHypothesis =>
      have split : commaSeparated (text :: next :: texts) =
          text ++ "," ++ commaSeparated (next :: texts) := by simp [commaSeparated]
      rw [split, encode_append, encode_append, inductionHypothesis, comma, List.flatMap_cons]
      simp

section Lists

variable {α β : Type} {Item : List UInt8 → α → List UInt8 → Prop} {closer : UInt8}
  {text : β → String} {value : β → α}

theorem listed_further (each : ∀ item rest, Item (encode (text item) ++ rest) (value item) rest)
    (items : List β) (rest : List UInt8) :
    Listed Item closer false
      ((items.map text).flatMap (fun other => 0x2c :: encode other) ++ closer :: rest)
      (items.map value) rest := by
  induction items with
  | nil => exact .close (.none _)
  | cons item items inductionHypothesis =>
      rw [List.map_cons, List.flatMap_cons, List.append_assoc, List.cons_append]
      exact .item ⟨_, .none _, .none _⟩ (each item _) inductionHypothesis

/-- Texts of items with commas between them are a list of the items. -/
theorem listed_commaSeparated
    (each : ∀ item rest, Item (encode (text item) ++ rest) (value item) rest) (items : List β)
    (rest : List UInt8) :
    Listed Item closer true (encode (commaSeparated (items.map text)) ++ closer :: rest)
      (items.map value) rest := by
  cases items with
  | nil => exact .close (.none _)
  | cons item items =>
      rw [List.map_cons, encode_commaSeparated_cons, List.append_assoc]
      exact .item (.none _) (each item _) (listed_further each items rest)

end Lists

/-! ### What is written -/

variable {N : Type}

/-- A source with its edges as they are written. -/
def writtenEntry (entry : N × List (Edge N)) : Entry N := (entry.1, entry.2.map written)

/-- A list of edges is given back by what is written of it. -/
theorem map_written_injective :
    Function.Injective (List.map (written : Edge N → WrittenEdge N)) := by
  apply List.map_injective_iff.mpr
  rintro ⟨first, kind⟩ ⟨second, other⟩ same
  simp only [written, WrittenEdge.mk.injEq] at same
  have found := EdgeKind.ofName?_name kind
  rw [same.2, EdgeKind.ofName?_name, Option.some.injEq] at found
  rw [same.1, found]

section Writing

variable [SnapshotId N] [SpelledId N] [WritableId N] [SpelledOut N]

theorem edgeForm_edgeText (edge : Edge N) (rest : List UInt8) :
    EdgeForm (encode (edgeText edge) ++ rest) (written edge) rest := by
  have front : encode "\x7b\"id\":" = 0x7b :: 0x22 :: (encode "id" ++ [0x22, 0x3a]) := by decide
  have middle : encode ",\"type\":" = 0x2c :: 0x22 :: (encode "type" ++ [0x22, 0x3a]) := by decide
  have back : encode "\x7d" = [0x7d] := by decide
  have target : ∀ behind, FieldForm (0x22 :: (encode "id" ++ 0x22 :: 0x3a ::
      (encode (WritableId.target edge.target) ++ behind))) (.target edge.target) behind :=
    fun behind => .target (stringBody_plain (by decide +kernel) _) (.none _) (.none _)
      (SpelledOut.target edge.target behind)
  have kindName : ∀ behind, FieldForm (0x22 :: (encode "type" ++ 0x22 :: 0x3a ::
      (encode (quote edge.kind.name) ++ behind)) : List UInt8)
      (.kindName edge.kind.name : Field N) behind :=
    fun behind => .kindName (stringBody_plain (by decide +kernel) _) (.none _)
      (textToken_quote edge.kind.name behind)
  have fields : Listed FieldForm 0x7d true _ [.target edge.target, .kindName edge.kind.name] rest :=
    .item (.none _) (target _) (.item ⟨_, .none _, .none _⟩ (kindName _) (.close (.none _)))
  have whole : EdgeForm _ (written edge) rest := .object fields rfl rfl
  rw [edgeText]
  simp only [encode_append, front, middle, back, List.cons_append, List.append_assoc,
    List.nil_append]
  exact whole

theorem entryForm_entryText (entry : N × List (Edge N)) (rest : List UInt8) :
    EntryForm (encode (entryText entry) ++ rest) (writtenEntry entry) rest := by
  have opening : encode ":[" = [0x3a, 0x5b] := by decide
  have closing : encode "]" = [0x5d] := by decide
  obtain ⟨body, split, key⟩ := SpelledOut.key entry.1
    (0x3a :: 0x5b :: (encode (commaSeparated (entry.2.map edgeText)) ++ 0x5d :: rest))
  rw [entryText]
  simp only [encode_append, opening, closing, List.cons_append, List.append_assoc,
    List.nil_append, split]
  exact .intro key (.none _) (.none _) (listed_commaSeparated edgeForm_edgeText entry.2 rest)

/-- What is written is a snapshot of the entries, in the order they are given. -/
theorem documentForm_write (entries : List (N × List (Edge N))) :
    DocumentForm (encode (write entries)) (entries.map writtenEntry) := by
  have opening : encode "\x7b" = [0x7b] := by decide
  have closing : encode "\x7d" = [0x7d] := by decide
  have listed : Listed EntryForm 0x7d true _ (entries.map writtenEntry) [] :=
    listed_commaSeparated entryForm_entryText entries []
  rw [write]
  simp only [encode_append, opening, closing, List.cons_append, List.nil_append]
  exact .intro (.none _) listed (.none _)

end Writing

/-! ### Serializations of a graph -/

variable [BEq N] [Hashable N]

/-- A text of a graph: a snapshot that has each source once, in any order, and the edges of
a source in theirs. -/
def Serializes [SnapshotId N] [SpelledId N] (graph : BuildGraph N) (bytes : List UInt8) : Prop :=
  ∃ entries : List (N × List (Edge N)),
    entries.Perm graph.toList ∧ DocumentForm bytes (entries.map writtenEntry)

theorem serializes_write [SnapshotId N] [SpelledId N] [WritableId N] [SpelledOut N]
    {graph : BuildGraph N} {entries : List (N × List (Edge N))}
    (order : entries.Perm graph.toList) : Serializes graph (encode (write entries)) :=
  ⟨entries, order, documentForm_write entries⟩

variable [LawfulBEq N] {graph : BuildGraph N} {entries : List (N × List (Edge N))}

/-- Entries are those of a graph, in some order, when each source has one entry and this
entry holds its edges. -/
theorem perm_toList_iff :
    entries.Perm graph.toList ↔ (entries.map (·.1)).Nodup ∧
      ∀ unit edges, (unit, edges) ∈ entries ↔ graph.outgoing[unit]? = some edges := by
  have keys : (graph.toList.map (·.1)).Nodup := by
    rw [BuildGraph.toList, Std.HashMap.map_fst_toList_eq_keys]
    exact Std.HashMap.nodup_keys
  constructor
  · intro order
    refine ⟨(order.map _).nodup_iff.mpr keys, fun unit edges => ?_⟩
    rw [order.mem_iff, BuildGraph.toList, Std.HashMap.mem_toList_iff_getElem?_eq_some]
  · rintro ⟨once, holds⟩
    apply (List.perm_ext_iff_of_nodup (.of_map _ once) (.of_map _ keys)).mpr
    rintro ⟨unit, edges⟩
    rw [holds, BuildGraph.toList, Std.HashMap.mem_toList_iff_getElem?_eq_some]

/-- The lists of a serialization that count are the lists of the graph. -/
theorem lastList_writtenEntry_iff (order : entries.Perm graph.toList) {unit : N}
    {raws : List (WrittenEdge N)} :
    LastList (entries.map writtenEntry) unit raws ↔
      ∃ edges, graph.outgoing[unit]? = some edges ∧ raws = edges.map written := by
  obtain ⟨once, holds⟩ := perm_toList_iff.mp order
  constructor
  · intro last
    obtain ⟨⟨source, edges⟩, member, same⟩ := List.mem_map.mp last.mem
    simp only [writtenEntry, Prod.mk.injEq] at same
    obtain ⟨rfl, rfl⟩ := same
    exact ⟨edges, (holds source edges).mp member, rfl⟩
  · rintro ⟨edges, found, rfl⟩
    have member := List.mem_map_of_mem (f := writtenEntry) ((holds unit edges).mpr found)
    apply lastList_of_nodup _ member
    rw [List.map_map]
    exact once

/-- A graph that matches entries has the lists that count, and no others. -/
theorem Matches.getElem?_eq_some_iff {entries : List (Entry N)} (holds : Matches graph entries)
    {unit : N} {edges : List (Edge N)} :
    graph.outgoing[unit]? = some edges ↔ LastList entries unit (edges.map written) := by
  have found : ∀ {raws}, LastList entries unit raws →
      graph.outgoing[unit]? = some (graph.edges unit) := by
    intro raws last
    have member : unit ∈ graph.outgoing :=
      (holds.sources unit).mpr (exists_lastList_iff.mp ⟨raws, last⟩)
    rw [BuildGraph.edges, Std.HashMap.getD_eq_getD_getElem?,
      Std.HashMap.getElem?_eq_some_getElem member, Option.getD_some]
  constructor
  · intro given
    have member : unit ∈ graph.outgoing := by
      rw [Std.HashMap.mem_iff_isSome_getElem?, given, Option.isSome_some]
    obtain ⟨raws, last⟩ := exists_lastList_iff.mpr ((holds.sources unit).mp member)
    rw [found last, Option.some.injEq] at given
    rw [← given, holds.edges unit raws last]
    exact last
  · intro last
    rw [found last, map_written_injective (holds.edges unit _ last)]

theorem sameEdges_of_matches {loaded : BuildGraph N} (order : entries.Perm graph.toList)
    (holds : Matches loaded (entries.map writtenEntry)) : loaded.SameEdges graph := by
  intro unit
  apply Option.ext
  intro edges
  rw [holds.getElem?_eq_some_iff, lastList_writtenEntry_iff order]
  constructor
  · rintro ⟨others, found, same⟩
    rw [map_written_injective same]
    exact found
  · exact fun found => ⟨edges, found, rfl⟩

/-! ### Round trips -/

variable [SnapshotId N] [SpelledId N]

theorem load_of_serializes {bytes : List UInt8} (serialized : Serializes graph bytes)
    (source : Source) : ∃ loaded, load source bytes = .ok loaded ∧ loaded.SameEdges graph := by
  obtain ⟨entries, order, form⟩ := serialized
  have known : ∀ unit raws, LastList (entries.map writtenEntry) unit raws →
      ∀ raw ∈ raws, raw.kindName ∈ kindNames := by
    intro unit raws last
    obtain ⟨edges, -, rfl⟩ := (lastList_writtenEntry_iff order).mp last
    exact kindName_mem_of_written edges
  obtain ⟨loaded, taken, holds⟩ := load_of_known form known
  exact ⟨loaded, taken source, sameEdges_of_matches order holds⟩

/-- What it means that graphs over a type of units survive as snapshots. -/
structure RoundTrips (N : Type) [BEq N] [Hashable N] [SnapshotId N] [SpelledId N]
    [WritableId N] : Prop where
  /-- What is written is a serialization, whichever order the sources stand in. -/
  writes : ∀ (graph : BuildGraph N) (entries : List (N × List (Edge N))),
    entries.Perm graph.toList → Serializes graph (encode (write entries))
  /-- Every serialization is loaded, and as the same graph. -/
  loads : ∀ (graph : BuildGraph N) (bytes : List UInt8), Serializes graph bytes →
    ∀ source, ∃ loaded, load source bytes = .ok loaded ∧ loaded.SameEdges graph
  /-- A graph that has been loaded, serialized and loaded again is the one loaded first. -/
  reloads : ∀ (source : Source) (bytes : List UInt8) (first : BuildGraph N),
    load source bytes = .ok first → ∀ again : List UInt8, Serializes first again →
      ∃ second, load source again = .ok second ∧ second.SameEdges first

theorem roundTrips_of_spelledOut [WritableId N] [SpelledOut N] : RoundTrips N where
  writes _ _ := serializes_write
  loads _ _ := load_of_serializes
  reloads source _ _ _ _ serialized := load_of_serializes serialized source

/-- Graphs over texts and over integers of each width survive as snapshots. -/
theorem snapshots_roundTrip :
    RoundTrips String ∧ RoundTrips UInt8 ∧ RoundTrips UInt32 ∧ RoundTrips Int64 :=
  ⟨roundTrips_of_spelledOut, roundTrips_of_spelledOut, roundTrips_of_spelledOut,
    roundTrips_of_spelledOut⟩

/-- A negative unit comes back from a key and from a target, and a source without edges
comes back as a source. -/
theorem snapshots_roundTrip_negativeSource :
    ∃ loaded,
      load .text (encode "\x7b\"-1\":[],\"3\":[\x7b\"id\":-1,\"type\":\"export\"\x7d]\x7d") =
        .ok loaded ∧
      loaded.SameEdges (.ofList [((3 : Int64), [⟨-1, .reexport⟩]), (-1, [])]) := by
  have order : [((-1 : Int64), []), (3, [⟨-1, .reexport⟩])].Perm
      (BuildGraph.ofList [((3 : Int64), [⟨-1, .reexport⟩]), (-1, [])]).toList := by
    refine perm_toList_iff.mpr ⟨by decide, fun unit edges => ?_⟩
    simp only [BuildGraph.ofList, List.foldl_cons, List.foldl_nil, BuildGraph.addEdges,
      BuildGraph.edges, BuildGraph.empty, Std.HashMap.getElem?_insert, Std.HashMap.getD_insert]
    by_cases isNegative : unit = -1
    · simp [isNegative, eq_comm]
    · by_cases isThree : unit = 3
      · simp [isThree, eq_comm]
      · simp [isNegative, isThree, Ne.symm isNegative, Ne.symm isThree]
  have text : "\x7b\"-1\":[],\"3\":[\x7b\"id\":-1,\"type\":\"export\"\x7d]\x7d" =
      write [((-1 : Int64), []), (3, [⟨-1, .reexport⟩])] := by
    decide +kernel
  obtain ⟨-, -, -, wide⟩ := snapshots_roundTrip
  rw [text]
  exact wide.loads _ _ (wide.writes _ _ order) .text

end Snapshot

end BuildImpact
