/-
Module: BuildImpact.Main
Layer: Command line
Purpose: The program: its arguments, environment and files.
Imports: BuildImpact.Command.Run
Trusted boundary: the file system, the environment and the terminal
Main exports: main
Open obligations: none
-/
import BuildImpact.Command.Run

namespace BuildImpact.Program

/-- The system's number of a failure; zero where it has none. -/
def errorCode : IO.Error → UInt32
  | .alreadyExists _ code _ | .otherError code _ | .resourceBusy code _
  | .resourceVanished code _ | .unsupportedOperation code _ | .hardwareFault code _
  | .unsatisfiedConstraints code _ | .illegalOperation code _ | .protocolError code _
  | .timeExpired code _ | .interrupted _ code _ | .noFileOrDirectory _ code _
  | .invalidArgument _ code _ | .permissionDenied _ code _ | .resourceExhausted _ code _
  | .inappropriateType _ code _ | .noSuchThing _ code _ => code
  | .unexpectedEof | .userError _ => 0

/-- The fault behind a failure; the last argument says whether the file was opened before. -/
def fileFault (error : IO.Error) (isOpened : Bool) : FileFault :=
  match (errorCode error).toNat with
  | 2 => .missing
  | 20 => .notDirectory
  | 21 => .isDirectory
  | 36 => .nameTooLong
  | code => if isOpened then .broken code else .closed code

/-- Read a file. -/
def readFile (path : String) : IO (Except FileFault (List UInt8)) := do
  if path.toList.elem '\x00' then return .error .zeroInPath
  let handle ← try IO.FS.Handle.mk path .read catch error => return .error (fileFault error false)
  try
    let content ← handle.readBinToEnd
    return .ok content.data.toList
  catch error => return .error (fileFault error true)

/-- Whether a path leads to a file, which need not be readable. -/
def isFile (path : String) : IO Bool := do
  if path.toList.elem '\x00' then return false
  try
    let found ← IO.FS.realPath path
    return (← found.metadata).type == .file
  catch _ => return false

/-- Files below the working directory. -/
def files : IO (FileAccess IO) := do
  let directory ← IO.currentDir
  return ⟨directory.toString, readFile, isFile⟩

/-- Colours are used on a terminal, unless the environment says otherwise. -/
def isColored : IO Bool := do
  let isSet (name : String) : IO Bool := do
    return (← IO.getEnv name).any (· != "0")
  if ← isSet "CLICOLOR_FORCE" then return true
  else if (← IO.getEnv "NO_COLOR").isSome then return false
  else (← IO.getStdout).isTty

/-- The notes that the environment asks for. -/
def logLimit : IO (Option LogLimit) := do
  return (← IO.getEnv "RUST_LOG").bind LogLimit.ofName?

/-- Run the program. -/
def main (arguments : List String) : IO UInt32 := do
  let terminal : Terminal := ⟨← isColored, ← logLimit⟩
  let outcome ← Run.run (← files) terminal arguments
  outcome.stderr.forM IO.eprintln
  IO.print outcome.stdout
  return outcome.code.toUInt32

end BuildImpact.Program

/-- The entry of the program. -/
def main (arguments : List String) : IO UInt32 := BuildImpact.Program.main arguments
