/-
Module: BuildImpact.Files.Fault
Layer: Files
Purpose: Why a file cannot be read.
Imports: BuildImpact.Decimal.Shortest
Trusted boundary: none
Main exports: FileFault, FileFault.reason, FileFault.message, FileFault.isOpened
Open obligations: none
-/
import BuildImpact.Decimal.Shortest

namespace BuildImpact

/-- Why the content of a file is not to be had. -/
inductive FileFault where
  /-- Nothing has this path. -/
  | missing
  /-- A directory has this path. -/
  | isDirectory
  /-- A part of the path that should be a directory is a file. -/
  | notDirectory
  /-- The path, or a part of it, is longer than a file system allows. -/
  | nameTooLong
  /-- The path holds a zero character. -/
  | zeroInPath
  /-- The content is not UTF-8 where text is needed. -/
  | notText
  /-- The system does not open the file, for the reason with a number. -/
  | closed (code : Nat)
  /-- The system opens the file and does not read it to its end. -/
  | broken (code : Nat)
deriving Repr, DecidableEq, Inhabited

namespace FileFault

/-- The system's wording of the reasons that opening and reading a file can fail for, by
their numbers. -/
def reason : Nat → String
  | 1 => "Operation not permitted"
  | 4 => "Interrupted system call"
  | 5 => "Input/output error"
  | 6 => "No such device or address"
  | 11 => "Resource temporarily unavailable"
  | 12 => "Cannot allocate memory"
  | 13 => "Permission denied"
  | 16 => "Device or resource busy"
  | 19 => "No such device"
  | 22 => "Invalid argument"
  | 23 => "Too many open files in system"
  | 24 => "Too many open files"
  | 26 => "Text file busy"
  | 27 => "File too large"
  | 40 => "Too many levels of symbolic links"
  | 75 => "Value too large for defined data type"
  | 95 => "Operation not supported"
  | 116 => "Stale file handle"
  | code => "Unknown error " ++ Decimal.natural code

/-- The wording of each fault, with the system's number where it has one. -/
def message : FileFault → String
  | .missing => "No such file or directory (os error 2)"
  | .isDirectory => "Is a directory (os error 21)"
  | .notDirectory => "Not a directory (os error 20)"
  | .nameTooLong => "File name too long (os error 36)"
  | .zeroInPath => "file name contained an unexpected NUL byte"
  | .notText => "stream did not contain valid UTF-8"
  | .closed code | .broken code => reason code ++ " (os error " ++ Decimal.natural code ++ ")"

/-- Whether what has the path can be opened, so that the fault shows only when it is read. -/
def isOpened : FileFault → Bool
  | .isDirectory | .broken _ => true
  | _ => false

end FileFault

end BuildImpact
