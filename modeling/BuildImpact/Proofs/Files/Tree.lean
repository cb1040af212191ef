/-
Module: BuildImpact.Proofs.Files.Tree
Layer: Proofs
Purpose: What it means that a path of a tree names a file, and that such a path has a
  directory around it.  A path without a part that names something leads nowhere but to
  the directory where it starts, so the path of a file has a last part.
Imports: Mathlib.Data.List.TakeWhile, BuildImpact.Files.Tree
Trusted boundary: none
Main exports: FileTree.Names, FileTree.node_eq_ok_iff, FileTree.Holds,
  FileTree.read_eq_ok_iff, FileTree.isFile_iff, FileTree.Names.exists_parent
Open obligations: none
-/
import Mathlib.Data.List.TakeWhile
import BuildImpact.Files.Tree

namespace BuildImpact

/-! ### Paths without names -/

namespace Path

/-- The parts of two paths with a slash between them are the parts of both. -/
theorem parts_append (front back : List Char) :
    parts (String.ofList (front ++ '/' :: back)) =
      parts (String.ofList front) ++ parts (String.ofList back) := by
  simp only [parts, String.toList_ofList, List.splitOn_append_cons_self, List.map_append]

theorem trimEnd_eq_nil_iff {parts : List String} :
    trimEnd parts = [] ↔ ∀ part ∈ parts, isIdle part = true := by
  rw [trimEnd, List.reverse_eq_nil_iff, List.dropWhile_eq_nil_iff]
  simp only [List.mem_reverse]

/-- A path has no directory around it only if no part of it names anything. -/
theorem isIdle_of_parent?_eq_none {path : String} (noParent : parent? path = none) :
    ∀ part ∈ parts path, isIdle part = true := by
  have nothing : (splitAnchor path).1 ≠ "." ∧ trimEnd (splitAnchor path).2 = [] := by
    simp only [parent?] at noParent
    split at noParent
    · rename_i empty
      split at noParent
      · cases noParent
      · rename_i notDot
        exact ⟨fun isDot => notDot (beq_iff_eq.mpr isDot), empty⟩
    · cases noParent
  obtain ⟨notDot, idle⟩ := nothing
  rw [trimEnd_eq_nil_iff] at idle
  rw [splitAnchor] at notDot idle
  split at idle
  · rename_i absolute
    rw [isAbsolute, beq_iff_eq, List.head?_eq_some_iff] at absolute
    obtain ⟨rest, slash⟩ := absolute
    have split : parts path = "" :: parts (String.ofList rest) := by
      rw [← String.ofList_toList (s := path), slash]
      exact parts_append [] rest
    rw [split] at idle ⊢
    exact List.forall_mem_cons.mpr ⟨rfl, idle⟩
  · rename_i relative
    rw [if_neg relative] at notDot
    split at idle
    · rename_i first
      rw [first] at notDot
      exact absurd rfl notDot
    · exact idle

end Path

namespace FileTree

variable {tree : FileTree} {path : String} {node : FileNode} {content : List UInt8}

/-! ### What a path names -/

/-- Whether a path leads, directory by directory, to a file or a directory. -/
structure Names (tree : FileTree) (path : String) (node : FileNode) : Prop where
  noZero : '\x00' ∉ path.toList
  nonempty : path ≠ ""
  short : path.utf8ByteSize ≤ maxPath
  leads : ∃ spot, (tree.route path).2.foldlM tree.step (tree.route path).1 = .ok spot ∧
    tree.nodeAt spot = some node

theorem node_eq_ok_iff : tree.node path = .ok node ↔ tree.Names path node := by
  rw [FileTree.node]
  split
  · rename_i zero
    refine iff_of_false nofun fun names => names.noZero ?_
    simpa using zero
  rename_i noZero
  split
  · rename_i empty
    exact iff_of_false nofun fun names => names.nonempty (String.isEmpty_iff.mp empty)
  rename_i nonempty
  split
  · rename_i long
    exact iff_of_false nofun fun names => Nat.not_lt.mpr names.short long
  rename_i short
  have valid : '\x00' ∉ path.toList := by simpa using noZero
  have named : path ≠ "" := fun empty => nonempty (String.isEmpty_iff.mpr empty)
  simp only
  constructor
  · intro given
    cases led : (tree.route path).2.foldlM tree.step (tree.route path).1 with
    | error fault =>
        rw [led] at given
        cases given
    | ok spot =>
        rw [led] at given
        simp only at given
        split at given
        · cases given
        · rename_i found
          cases given
          exact ⟨valid, named, Nat.not_lt.mp short, spot, led, found⟩
  · rintro ⟨_, _, _, spot, led, found⟩
    simp only [led, found]

/-! ### Files -/

/-- Whether a path leads to a file with a certain content. -/
def Holds (tree : FileTree) (path : String) (content : List UInt8) : Prop :=
  tree.Names path (.file (.ok content))

/-- Reading gives the content of files, and of nothing else. -/
theorem read_eq_ok_iff : tree.read path = .ok content ↔ tree.Holds path content := by
  rw [Holds, ← node_eq_ok_iff, read]
  cases tree.node path with
  | error fault => exact iff_of_false nofun nofun
  | ok node =>
      cases node with
      | directory => exact iff_of_false nofun nofun
      | file held => simp only [Except.ok.injEq, FileNode.file.injEq]

/-- A file is one whether or not it can be read. -/
theorem isFile_iff : tree.isFile path = true ↔ ∃ held, tree.Names path (.file held) := by
  simp only [← node_eq_ok_iff]
  rw [isFile]
  cases tree.node path with
  | error fault => exact iff_of_false nofun nofun
  | ok node =>
      cases node with
      | directory => exact iff_of_false nofun nofun
      | file held => exact iff_of_true rfl ⟨held, rfl⟩

/-! ### The directory around a file -/

/-- Parts that name nothing lead from a directory to itself. -/
theorem foldlM_step_idle {spot : Spot} (directory : tree.nodeAt spot = some .directory) :
    ∀ {parts : List String}, (∀ part ∈ parts, Path.isIdle part = true) →
      parts.foldlM tree.step spot = .ok spot := by
  intro parts idle
  induction parts with
  | nil => rfl
  | cons part parts inductionHypothesis =>
      obtain ⟨first, others⟩ := List.forall_mem_cons.mp idle
      have stays : tree.step spot part = .ok spot := by simp [step, directory, first]
      rw [List.foldlM_cons, stays]
      exact inductionHypothesis others

/-- A path starts in a directory, and takes no steps but along its own parts. -/
theorem route_spec (tree : FileTree) (path : String) :
    tree.nodeAt (tree.route path).1 = some .directory ∧
      ∀ part ∈ (tree.route path).2, part ∈ Path.parts path := by
  have inside : tree.nodeAt (.inside []) = some .directory := rfl
  rw [route]
  split
  · exact ⟨inside, nofun⟩
  split
  · rename_i below
    obtain ⟨rest, split⟩ := List.isPrefixOf_iff_prefix.mp below
    have characters : path.toList = tree.root.toList ++ '/' :: rest := by
      rw [← split, String.toList_append, List.append_assoc]
      rfl
    have own : Path.parts path = Path.parts tree.root ++ Path.parts (String.ofList rest) := by
      rw [← String.ofList_toList (s := path), characters, Path.parts_append, String.ofList_toList]
    have behind : path.toList.drop (tree.root.length + 1) = rest := by
      rw [characters, ← String.length_toList]
      simp
    refine ⟨inside, fun part member => ?_⟩
    rw [behind] at member
    exact own ▸ List.mem_append_right _ member
  split
  · exact ⟨rfl, fun _ => id⟩
  · exact ⟨inside, fun _ => id⟩

/-- The path of a file has a directory around it. -/
theorem Names.exists_parent {held : Except FileFault (List UInt8)}
    (names : tree.Names path (.file held)) : ∃ directory, Path.parent? path = some directory := by
  by_contra noParent
  have idle := Path.isIdle_of_parent?_eq_none (Option.eq_none_iff_forall_ne_some.mpr
    fun directory found => noParent ⟨directory, found⟩)
  obtain ⟨start, own⟩ := tree.route_spec path
  obtain ⟨spot, led, found⟩ := names.leads
  rw [foldlM_step_idle start fun part member => idle part (own part member)] at led
  cases led
  rw [start] at found
  cases found

end FileTree

end BuildImpact
