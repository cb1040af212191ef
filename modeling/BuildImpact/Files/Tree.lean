/-
Module: BuildImpact.Files.Tree
Layer: Files
Purpose: How files are read, and a tree of files that is known in full.
Imports: BuildImpact.Files.Fault, BuildImpact.Files.Path
Trusted boundary: none
Main exports: FileAccess, FileNode, FileTree, FileTree.ofList, FileTree.node, FileTree.read,
  FileTree.isFile, FileTree.access
Open obligations: none
-/
import BuildImpact.Files.Fault
import BuildImpact.Files.Path

namespace BuildImpact

/-- A way to read files. -/
structure FileAccess (m : Type → Type) where
  /-- The directory that relative paths start from. -/
  directory : String
  /-- The content of the file with a path. -/
  read : String → m (Except FileFault (List UInt8))
  /-- Whether a path names a file, whether or not its content is to be had. -/
  isFile : String → m Bool

/-- What a path can name. -/
inductive FileNode where
  /-- A file, with its content or with the fault that keeps it from being read. -/
  | file (content : Except FileFault (List UInt8))
  | directory
deriving Repr, Inhabited

/-- Whether it is a file. -/
def FileNode.isFile : FileNode → Bool
  | .file _ => true
  | .directory => false

/-- A directory with everything below it.  Around it there are only
directories, up to the root, of which it is not known what else they hold. -/
structure FileTree where
  /-- The path of the directory itself. -/
  root : String
  /-- What is below it, by the parts of the path. -/
  entries : List (List String × FileNode)
deriving Repr, Inhabited

namespace FileTree

/-- A tree from paths with their contents; a path without content is a
directory. -/
def ofList (root : String) (entries : List (String × Option (List UInt8))) : FileTree :=
  ⟨root, entries.map fun (path, content) =>
    ((Path.parts path).filter (!Path.isIdle ·),
      match content with
      | some bytes => .file (.ok bytes)
      | none => .directory)⟩

/-- What a list of parts names.  Directories need not be given if something is
below them. -/
def find? (tree : FileTree) (names : List String) : Option FileNode :=
  if names.isEmpty then some .directory
  else
    match tree.entries.lookup names with
    | some node => some node
    | none =>
      if tree.entries.any fun entry => names.isPrefixOf entry.1 then some .directory else none

/-- Where a path has led so far. -/
inductive Spot where
  /-- Somewhere in the tree; the names lead there. -/
  | inside (names : List String)
  /-- In a directory around the tree. -/
  | outside
deriving Repr, DecidableEq, Inhabited

/-- What is at a spot. -/
def nodeAt (tree : FileTree) : Spot → Option FileNode
  | .inside names => tree.find? names
  | .outside => some .directory

/-- The greatest number of bytes in a part of a path. -/
def maxPart : Nat := 255

/-- The greatest number of bytes in a path. -/
def maxPath : Nat := 4095

/-- Take one step from a spot.  Only a directory leads further, even to itself. -/
def step (tree : FileTree) (spot : Spot) (part : String) : Except FileFault Spot :=
  match tree.nodeAt spot with
  | none => .error .missing
  | some (.file _) => .error .notDirectory
  | some .directory =>
    if Path.isIdle part then .ok spot
    else if maxPart < part.utf8ByteSize then .error .nameTooLong
    else
      match spot with
      | .outside => if part == ".." then .ok .outside else .error .missing
      | .inside names =>
        if part == ".." then .ok (if names.isEmpty then .outside else .inside names.dropLast)
        else .ok (.inside (names ++ [part]))

/-- Where a path starts, and the steps that it takes from there. -/
def route (tree : FileTree) (path : String) : Spot × List String :=
  if path == tree.root then (.inside [], [])
  else if (tree.root ++ "/").toList.isPrefixOf path.toList then
    (.inside [], Path.parts (String.ofList (path.toList.drop (tree.root.length + 1))))
  else if Path.isAbsolute path then (.outside, Path.parts path)
  else (.inside [], Path.parts path)

/-- What a path names. -/
def node (tree : FileTree) (path : String) : Except FileFault FileNode :=
  if path.toList.elem '\x00' then .error .zeroInPath
  else if path.isEmpty then .error .missing
  else if maxPath < path.utf8ByteSize then .error .nameTooLong
  else
    let (start, parts) := tree.route path
    match parts.foldlM tree.step start with
    | .error fault => .error fault
    | .ok spot =>
      match tree.nodeAt spot with
      | none => .error .missing
      | some node => .ok node

/-- The content of the file with a path. -/
def read (tree : FileTree) (path : String) : Except FileFault (List UInt8) :=
  match tree.node path with
  | .error fault => .error fault
  | .ok .directory => .error .isDirectory
  | .ok (.file content) => content

/-- Whether a path names a file. -/
def isFile (tree : FileTree) (path : String) : Bool :=
  match tree.node path with
  | .error _ => false
  | .ok node => node.isFile

/-- Reading from a tree that is known needs nothing else. -/
def access (tree : FileTree) : FileAccess Id := ⟨tree.root, tree.read, tree.isFile⟩

end FileTree

end BuildImpact
