/-
Module: BuildImpact.Command.Run
Layer: Command line
Purpose: A whole run: from arguments and files to what is printed.
Imports: BuildImpact.Command.Arguments, BuildImpact.Report.Data, BuildImpact.Report.Text,
  BuildImpact.Settings.Discover, BuildImpact.Snapshot.Load, BuildImpact.Text.Lines
Trusted boundary: none
Main exports: Terminal, Outcome, Run.loadGraph, Run.prepare, Run.answer, Run.run
Open obligations: none
-/
import BuildImpact.Command.Arguments
import BuildImpact.Report.Data
import BuildImpact.Report.Text
import BuildImpact.Settings.Discover
import BuildImpact.Snapshot.Load
import BuildImpact.Text.Lines

namespace BuildImpact

/-- Where a run prints to. -/
structure Terminal where
  isColored : Bool
  /-- The notes that are shown, whatever the arguments ask for. -/
  limit : Option LogLimit
deriving Repr, DecidableEq, Inhabited

/-- What a run leaves behind. -/
structure Outcome where
  code : Nat
  stdout : String
  /-- The lines of the notes and of the fault. -/
  stderr : List String
deriving Repr, DecidableEq, Inhabited

namespace Run

/-- The name of the program with its version. -/
def versionText (command : Option Command) : String :=
  "ripple" ++ (match command with
    | none => ""
    | some command => "-" ++ command.name) ++ " 0.1.0"

/-- How the program is used. -/
def usage : List String :=
  ["Usage: ripple [OPTIONS] <COMMAND>",
    "",
    "Commands:",
    "  impact <UNIT>                   units whose change recompiles a unit",
    "  closure <UNIT>                  reachable units with their links",
    "  depths <UNIT>                   reachable units with their depths",
    "  path [--compile] <FROM> <TO>    a shortest path between two units",
    "  affected [UNIT]...              the units that each unit recompiles",
    "",
    "Options:",
    "  -g, --graph <FILE>     graph snapshot",
    "  -c, --config <FILE>    settings file",
    "      --json             JSON instead of text",
    "  -v, --verbose          more notes, up to three times",
    "  -h, --help             this text",
    "  -V, --version          the version"]

/-- Lines with their ends. -/
def unlines (lines : List String) : String := String.join (lines.map (· ++ "\n"))

/-- What is said of a fault, and below it of what lies behind it. -/
def faultText (isColored : Bool) (fault : Fault) : String :=
  Paint.fault.on isColored "error" ++ ": " ++ fault.message ++
    (match fault.cause? with
    | none => ""
    | some cause => "\n  " ++ Paint.aside.on isColored "caused by" ++ ": " ++ cause)

/-- The lines of a fault. -/
def faultLines (isColored : Bool) (fault : Fault) : List String :=
  Lines.ofText (faultText isColored fault)

/-- The lines of the notes that are shown. -/
def eventLines (limit : LogLimit) (events : List LogEvent) : List String :=
  (events.filter (limit.shows ·.level)).flatMap (Lines.ofText ·.text)

/-- The note about where settings come from. -/
def originEvent : Settings.Origin → LogEvent
  | .file path => .settingsRead path
  | .defaults directory => .defaultSettings directory

/-- The graph of a file's content.  Where something was opened that cannot be read, as a
directory can be, the fault is one of the snapshot. -/
def loadGraph (content : Except FileFault (List UInt8)) : Except Fault (BuildGraph String) :=
  match content with
  | .error fault => .error (if fault.isOpened then .noSnapshotText fault else .file fault)
  | .ok bytes =>
    match Snapshot.load .stream bytes with
    | .error fault => .error (Fault.ofSnapshot fault)
    | .ok graph => .ok graph

/-- What a query needs. -/
structure Prepared where
  settings : Settings
  graph : BuildGraph String

section Reading

variable {m : Type → Type} [Monad m]

/-- Read the settings and the graph.  What was noted comes with the result. -/
def prepare (files : FileAccess m) (options : Options) :
    m (List LogEvent × Except Fault Prepared) := do
  match ← Settings.find files options.settings files.directory with
  | .error fault => return ([], .error fault)
  | .ok (settings, origin) =>
    let events := [originEvent origin]
    match settings.snapshotPath options.graph with
    | .error fault => return (events, .error fault)
    | .ok path =>
      match loadGraph (← files.read path) with
      | .error fault => return (events, .error fault)
      | .ok graph =>
        let note := LogEvent.graphRead path graph.sourceCount graph.edgeCount
        return (events ++ [note], .ok ⟨settings, graph⟩)

/-- The answer to a query as it is printed. -/
def answer (isColored : Bool) (options : Options) (prepared : Prepared) (query : Query) :
    String :=
  let settings := prepared.settings
  let report := query.report prepared.graph
  if options.json || settings.json then unlines [report.json]
  else unlines (report.lines ⟨isColored, settings.maxDisplay⟩)

/-- Run a query. -/
def runQuery (files : FileAccess m) (terminal : Terminal) (options : Options) (query : Query) :
    m Outcome := do
  let limit := terminal.limit.getD (LogLimit.ofVerbosity options.verbosity)
  let (events, prepared) ← prepare files options
  match prepared with
  | .error fault =>
    return ⟨1, "", eventLines limit events ++ faultLines terminal.isColored fault⟩
  | .ok prepared =>
    let events := events ++ query.events prepared.graph limit
    return ⟨0, answer terminal.isColored options prepared query, eventLines limit events⟩

/-- A whole run. -/
def run (files : FileAccess m) (terminal : Terminal) (arguments : List String) : m Outcome :=
  match Request.ofArguments arguments with
  | .error misuse => pure ⟨2, "", ("error: " ++ misuse.message) :: "" :: usage⟩
  | .ok (.version command) => pure ⟨0, unlines [versionText command], []⟩
  | .ok .help => pure ⟨0, unlines usage, []⟩
  | .ok (.run options query) => runQuery files terminal options query

end Reading

end Run

end BuildImpact
