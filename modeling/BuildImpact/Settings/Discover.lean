/-
Module: BuildImpact.Settings.Discover
Layer: Settings
Purpose: Which settings file counts, and paths seen from its directory.
Imports: BuildImpact.Fault, BuildImpact.Files.Tree, BuildImpact.Settings.Entries,
  BuildImpact.Text.Utf8
Trusted boundary: none
Main exports: Settings.fileName, Settings.ofFile, Settings.Origin, Settings.find,
  Settings.snapshotPath
Open obligations: none
-/
import BuildImpact.Fault
import BuildImpact.Files.Tree
import BuildImpact.Settings.Entries
import BuildImpact.Text.Utf8

namespace BuildImpact.Settings

/-- The settings file that counts when no other one is named. -/
def fileName : String := "ripple.yaml"

/-- The same settings with the snapshot seen from the directory of the file that
names it. -/
def relativeTo (path : String) (settings : Settings) : Settings :=
  match Path.parent? path with
  | none => settings
  | some directory => { settings with graph := settings.graph.map (Path.join directory) }

/-- The settings of a file with the given path and content. -/
def ofFile (path : String) (content : List UInt8) : Except BuildImpact.Fault Settings :=
  match Utf8.decode? content with
  | none => .error (.file .notText)
  | some text =>
    match ofText text with
    | .error fault => .error (.settings { fault with file := some path })
    | .ok settings => .ok (settings.relativeTo path)

/-- Where settings come from. -/
inductive Origin where
  | file (path : String)
  /-- The directory holds no settings file, and the defaults count. -/
  | defaults (directory : String)
deriving Repr, DecidableEq, Inhabited

section Reading

variable {m : Type → Type} [Monad m]

/-- Read the settings file with a path, which has to exist. -/
def readFile (files : FileAccess m) (path : String) :
    m (Except BuildImpact.Fault (Settings × Origin)) := do
  match ← files.read path with
  | .error fault => return .error (.file fault)
  | .ok content => return (ofFile path content).map fun settings => (settings, .file path)

/-- Find the settings: those of the file that is named; otherwise those of the
file with the usual name in the directory, if there is one; otherwise the
defaults. -/
def find (files : FileAccess m) (named : Option String) (directory : String) :
    m (Except BuildImpact.Fault (Settings × Origin)) := do
  match named with
  | some path => readFile files path
  | none =>
    let path := Path.join directory fileName
    if ← files.isFile path then readFile files path
    else return .ok (Settings.default, .defaults directory)

end Reading

/-- The snapshot that counts: the one that is named, or the one of the settings. -/
def snapshotPath (settings : Settings) (named : Option String) : Except BuildImpact.Fault String :=
  match named with
  | some path => .ok path
  | none =>
    match settings.graph with
    | some path => .ok path
    | none => .error (.settings (.general .noGraph))

end BuildImpact.Settings
