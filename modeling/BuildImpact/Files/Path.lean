/-
Module: BuildImpact.Files.Path
Layer: Files
Purpose: Paths as texts: their parts, joining them, and the directory around a path.
Imports: none
Trusted boundary: none
Main exports: Path.isAbsolute, Path.parts, Path.join, Path.parent?
Open obligations: none
-/

namespace BuildImpact.Path

/-- Whether a path begins at the root of all files. -/
def isAbsolute (path : String) : Bool := path.toList.head? == some '/'

/-- The parts of a path between its slashes; some may be empty. -/
def parts (path : String) : List String := (path.toList.splitOn '/').map String.ofList

/-- A path seen from the directory `base`.  An absolute path stays as it is, and
no slash is doubled between the two. -/
def join (base path : String) : String :=
  if isAbsolute path then path
  else
    let needsSlash := match base.toList.getLast? with
      | none => false
      | some last => last != '/'
    base ++ (if needsSlash then "/" else "") ++ path

@[simp] theorem join_absolute {path : String} (absolute : isAbsolute path) (base : String) :
    join base path = path := by
  simp [join, absolute]

/-- Whether a part names nothing: it is empty, or a dot. -/
def isIdle (part : String) : Bool := part == "" || part == "."

/-- Drop the parts at the end that name nothing. -/
def trimEnd (parts : List String) : List String :=
  (parts.reverse.dropWhile isIdle).reverse

/-- What a path begins with and what is never dropped from it: the slash of an
absolute path, or a dot that is the whole first part. -/
def splitAnchor (path : String) : String × List String :=
  if isAbsolute path then ("/", (parts path).tail)
  else
    match parts path with
    | "." :: rest => (".", "" :: rest)
    | all => ("", all)

/-- The directory around a path: the path without its last part.  Slashes and
dots at the end do not count as parts. -/
def parent? (path : String) : Option String :=
  let (anchor, rest) := splitAnchor path
  match trimEnd rest with
  | [] => if anchor == "." then some "" else none
  | named => some (anchor ++ String.intercalate "/" (trimEnd named.dropLast))

end BuildImpact.Path
