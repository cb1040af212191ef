/-
Module: BuildImpact.Command.Arguments
Layer: Command line
Purpose: What the arguments of a run ask for.
Imports: BuildImpact.Command.Query
Trusted boundary: none
Main exports: Command, Options, Misuse, Request, Arguments.step, Request.ofArguments
Open obligations: none
-/
import BuildImpact.Command.Query

namespace BuildImpact

inductive Command where
  | impact
  | closure
  | depths
  | path
  | affected
deriving Repr, DecidableEq, Inhabited

namespace Command

def name : Command → String
  | .impact => "impact"
  | .closure => "closure"
  | .depths => "depths"
  | .path => "path"
  | .affected => "affected"

/-- The command with a name; the spelling has to be exact. -/
def ofName? (name : String) : Option Command :=
  [impact, closure, depths, path, affected].find? (·.name == name)

/-- The number of units that a command takes at most. -/
def maxUnits : Command → Option Nat
  | .impact | .closure | .depths => some 1
  | .path => some 2
  | .affected => none

end Command

/-- What holds for a run whatever its query. -/
structure Options where
  /-- The snapshot that is named. -/
  graph : Option String
  /-- The settings file that is named. -/
  settings : Option String
  json : Bool
  /-- How often more notes are asked for. -/
  verbosity : Nat
deriving Repr, DecidableEq, Inhabited

/-- Ways in which arguments make no request. -/
inductive Misuse where
  | noCommand
  | unknownCommand (name : String)
  | unknownOption (name : String)
  /-- The option needs a value, and an empty one is none. -/
  | missingValue (name : String)
  | unexpectedValue (name : String)
  | repeatedOption (name : String)
  | missingUnit
  | extraUnit (unit : String)
deriving Repr, DecidableEq, Inhabited

def Misuse.message : Misuse → String
  | .noCommand => "a command is required"
  | .unknownCommand name => "there is no command '" ++ name ++ "'"
  | .unknownOption name => "there is no option '" ++ name ++ "' here"
  | .missingValue name => "the option '" ++ name ++ "' needs a value"
  | .unexpectedValue name => "the option '" ++ name ++ "' takes no value"
  | .repeatedOption name => "the option '" ++ name ++ "' is given more than once"
  | .missingUnit => "a unit is missing"
  | .extraUnit unit => "the unit '" ++ unit ++ "' is one too many"

/-- What arguments ask for. -/
inductive Request where
  | run (options : Options) (query : Query)
  /-- The version of the program, or of one of its commands. -/
  | version (command : Option Command)
  | help
deriving Repr, DecidableEq, Inhabited

namespace Arguments

/-- The options that take a value. -/
inductive ValueOption where
  | graph
  | settings
deriving Repr, DecidableEq, Inhabited

/-- The long name of an option with a value. -/
def ValueOption.name : ValueOption → String
  | .graph => "--graph"
  | .settings => "--config"

/-- What is given on one side of the command.  There, an option is given at most
once, except for the one that counts. -/
structure Given where
  graph : Option String := none
  settings : Option String := none
  /-- A value that was an argument of its own and is not judged yet. -/
  latest : Option (ValueOption × String) := none
  json : Bool := false
  verbosity : Nat := 0
  compileFirst : Bool := false
  units : List String := []
deriving Repr, DecidableEq, Inhabited

/-- Give an option its value. -/
def Given.set (given : Given) (option : ValueOption) (value : String) : Except Misuse Given :=
  let known := match option with
    | .graph => given.graph
    | .settings => given.settings
  if value.isEmpty then .error (.missingValue option.name)
  else if known.isSome then .error (.repeatedOption option.name)
  else
    match option with
    | .graph => .ok { given with graph := some value }
    | .settings => .ok { given with settings := some value }

/-- Judge the latest value.  That is done when the next option or unit comes, or
at the end; a command does not wait for it. -/
def Given.settle (given : Given) : Except Misuse Given :=
  match given.latest with
  | none => .ok given
  | some (option, value) => { given with latest := none }.set option value

/-- The arguments read so far. -/
structure State where
  /-- What stood before the command. -/
  before : Given
  command : Option Command
  /-- What is given on the side at hand. -/
  given : Given
  /-- The option whose value comes next. -/
  pending : Option ValueOption
  /-- Whether options have ended. -/
  unitsOnly : Bool
deriving Repr, DecidableEq, Inhabited

/-- Nothing has been read. -/
def State.start : State := ⟨{}, none, {}, none, false⟩

/-- Why reading ends before the last argument. -/
inductive Stop where
  | misuse (misuse : Misuse)
  | version (command : Option Command)
  | help
deriving Repr, DecidableEq, Inhabited

/-- Reading goes on, or stops. -/
abbrev Step := Except Stop State

/-- Stop because of a misuse. -/
def refuse {α : Type} (misuse : Misuse) : Except Stop α := .error (.misuse misuse)

/-- Judge the latest value at hand. -/
def settle (state : State) : Step :=
  match state.given.settle with
  | .error misuse => refuse misuse
  | .ok given => .ok { state with given := given }

/-- Give an option the value that is attached to it. -/
def setValue (state : State) (option : ValueOption) (value : String) : Step :=
  match state.given.set option value with
  | .error misuse => refuse misuse
  | .ok given => .ok { state with given := given }

/-- Keep the value that follows its option. -/
def keepValue (state : State) (option : ValueOption) (value : String) : State :=
  { state with given := { state.given with latest := some (option, value) }, pending := none }

/-- Ask for more notes. -/
def countVerbose (state : State) : State :=
  { state with given := { state.given with verbosity := state.given.verbosity + 1 } }

/-- Ask for JSON. -/
def setJson (state : State) : Step :=
  if state.given.json then refuse (.repeatedOption "--json")
  else .ok { state with given := { state.given with json := true } }

/-- Ask for a gated route, which only the command for routes knows. -/
def setCompileFirst (state : State) : Step :=
  if state.command ≠ some .path then refuse (.unknownOption "--compile")
  else if state.given.compileFirst then refuse (.repeatedOption "--compile")
  else .ok { state with given := { state.given with compileFirst := true } }

/-- Read an option that has no value. -/
def readFlag (state : State) (name : String) : Step :=
  match name with
  | "--json" => setJson state
  | "--verbose" => .ok (countVerbose state)
  | "--compile" => setCompileFirst state
  | "--version" => .error (.version state.command)
  | "--help" => .error .help
  | _ => refuse (.unknownOption name)

/-- Read an option with two dashes.  A value follows an equals sign or is the
next argument. -/
def readLong (state : State) (name : List Char) (value : Option (List Char)) : Step :=
  let word := String.ofList name
  let option := [ValueOption.graph, .settings].find? (·.name == word)
  match option, value with
  | some option, some value => setValue state option (String.ofList value)
  | some option, none => .ok { state with pending := some option }
  | none, none => readFlag state word
  | none, some _ =>
    match readFlag state word with
    | .error (.misuse misuse) => refuse misuse
    | _ => refuse (.unexpectedValue word)

/-- The value that stands in the same argument as the letter of its option, with
or without an equals sign. -/
def attachedValue (state : State) (option : ValueOption) : List Char → Step
  | [] => .ok { state with pending := some option }
  | '=' :: value => setValue state option (String.ofList value)
  | value => setValue state option (String.ofList value)

/-- Read options with one letter each.  One that takes a value is the last. -/
def readShort (state : State) : List Char → Step
  | [] => .ok state
  | 'v' :: letters => readShort (countVerbose state) letters
  | 'g' :: value => attachedValue state .graph value
  | 'c' :: value => attachedValue state .settings value
  | 'V' :: _ => .error (.version state.command)
  | 'h' :: _ => .error .help
  | letter :: _ => refuse (.unknownOption ("-" ++ letter.toString))

/-- Read a unit. -/
def readUnit (state : State) (command : Command) (unit : String) : Step :=
  if command.maxUnits.any (· ≤ state.given.units.length) then refuse (.extraUnit unit)
  else .ok { state with given := { state.given with units := state.given.units ++ [unit] } }

/-- Read an argument that is neither an option nor a value. -/
def readWord (state : State) (word : String) : Step :=
  match state.command with
  | some command => (settle state).bind fun state => readUnit state command word
  | none =>
    match if state.unitsOnly then none else Command.ofName? word with
    | some command =>
      .ok { state with before := state.given, command := some command, given := {} }
    | none =>
      if word == "help" && !state.unitsOnly then .error .help
      else refuse (.unknownCommand word)

/-- Read one argument.  Two dashes end all options; a single dash is a word. -/
def step (state : State) (argument : String) : Step :=
  if state.unitsOnly then readWord state argument
  else
    match argument.toList, state.pending with
    | '-' :: _ :: _, some option => refuse (.missingValue option.name)
    | ['-', '-'], none => .ok { state with unitsOnly := true }
    | '-' :: '-' :: name, none =>
      let long := '-' :: '-' :: name.takeWhile (· != '=')
      (settle state).bind fun state =>
        match name.dropWhile (· != '=') with
        | [] => readLong state long none
        | _ :: value => readLong state long (some value)
    | '-' :: letter :: letters, none =>
      (settle state).bind fun state => readShort state (letter :: letters)
    | _, some option => .ok (keepValue state option argument)
    | _, none => readWord state argument

/-- What holds for the whole run.  What stands behind the command wins. -/
def options (before given : Given) : Options :=
  ⟨given.graph.or before.graph, given.settings.or before.settings, given.json || before.json,
    if given.verbosity = 0 then before.verbosity else given.verbosity⟩

/-- The query of a command with its units. -/
def query? (command : Command) (given : Given) : Option Query :=
  match command, given.units with
  | .impact, [root] => some (.impact root)
  | .closure, [root] => some (.closure root)
  | .depths, [root] => some (.depths root)
  | .path, [source, target] => some (.route source target given.compileFirst)
  | .affected, roots => some (.affected roots)
  | _, _ => none

/-- The request of all arguments together. -/
def finish (state : State) : Except Misuse Request := do
  if let some option := state.pending then throw (.missingValue option.name)
  let some command := state.command | throw .noCommand
  let given ← state.given.settle
  let before ← state.before.settle
  match query? command given with
  | none => throw .missingUnit
  | some query => return .run (options before given) query

end Arguments

/-- What a list of arguments asks for. -/
def Request.ofArguments (arguments : List String) : Except Misuse Request :=
  match arguments.foldlM Arguments.step Arguments.State.start with
  | .ok state => Arguments.finish state
  | .error (.misuse misuse) => .error misuse
  | .error (.version command) => .ok (.version command)
  | .error .help => .ok .help

end BuildImpact
