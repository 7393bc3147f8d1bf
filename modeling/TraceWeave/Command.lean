import TraceWeave.Instrument

/-!
The command line: one command, `instrument`, and its options.

An option takes its value from the next argument or from behind an equals sign.
-/

namespace TraceWeave

open TraceWeave.Agent TraceWeave.Source

/-- A request to instrument an application. -/
structure Command where
  options : Options
  patchFile : Path
  /-- Print the advisories after the run. -/
  debug : Bool

/-- Why arguments are no command. -/
inductive UsageError where
  | noCommand
  | unknownCommand (name : String)
  | unknownArgument (argument : String)
  | missingValue (option : String)
  | repeatedOption (option : String)
  | missingPath
  deriving DecidableEq, Repr

namespace UsageError

/-- How the command is to be written. -/
def usage : String :=
  "Usage: instrument --path <DIR> [--name <NAME>] [--agent <AGENT>] [--diff <FILE>] [--debug]"

def reason : UsageError → String
  | .noCommand => "a subcommand is required but one was not provided"
  | .unknownCommand name => "unrecognized subcommand '" ++ name ++ "'"
  | .unknownArgument argument => "unexpected argument '" ++ argument ++ "' found"
  | .missingValue option => "a value is required for '" ++ option ++ "' but none was supplied"
  | .repeatedOption option => "the argument '" ++ option ++ "' cannot be used multiple times"
  | .missingPath => "the following required arguments were not provided:\n  --path <DIR>"

def message (error : UsageError) : String := "error: " ++ error.reason ++ "\n\n" ++ usage

end UsageError

namespace Command

/-- The options that take a value. -/
inductive Setting where
  | path
  | name
  | agent
  | diff
  deriving DecidableEq, Repr

namespace Setting

/-- The option as it is written in full. -/
def text : Setting → String
  | .path => "--path <DIR>"
  | .name => "--name <NAME>"
  | .agent => "--agent <AGENT>"
  | .diff => "--diff <FILE>"

def ofLongName? : String → Option Setting
  | "--path" => some .path
  | "--name" => some .name
  | "--agent" => some .agent
  | "--diff" => some .diff
  | _ => none

def ofLetter? : Char → Option Setting
  | 'p' => some .path
  | 'n' => some .name
  | 'a' => some .agent
  | _ => none

end Setting

/-- What a single argument says. -/
inductive Argument where
  | debug
  | setting (key : Setting) (value : Option String)
  | other (text : String)

/-- Splits an argument at its first equals sign. -/
def splitValue (argument : String) : String × Option String :=
  let (front, rest) := argument.toList.span (· != '=')
  match rest with
  | [] => (argument, none)
  | _ :: value => (String.ofList front, some (String.ofList value))

/-- The value that stands right behind the letter of an option. -/
def attachedValue : List Char → Option String
  | [] => none
  | '=' :: value => some (String.ofList value)
  | value => some (String.ofList value)

def Argument.ofText (argument : String) : Argument :=
  match argument.toList with
  | ['-', 'd'] => .debug
  | '-' :: '-' :: _ =>
      let (name, value) := splitValue argument
      if argument == "--debug" then .debug
      else
        match Setting.ofLongName? name with
        | some key => .setting key value
        | none => .other argument
  | '-' :: letter :: value =>
      match Setting.ofLetter? letter with
      | some key => .setting key (attachedValue value)
      | none => .other argument
  | _ => .other argument

/-- What has been read of the arguments. -/
structure Reading where
  command : Option String := none
  debug : Bool := false
  settings : List (Setting × String) := []

def Reading.set (reading : Reading) (key : Setting) (value : String) :
    Except UsageError Reading :=
  if (reading.settings.lookup key).isSome then .error (.repeatedOption key.text)
  else .ok { reading with settings := (key, value) :: reading.settings }

/-- Reads the arguments one after the other. -/
def Reading.addAll (reading : Reading) : List String → Except UsageError Reading
  | [] => .ok reading
  | argument :: rest =>
      match Argument.ofText argument with
      | .debug => { reading with debug := true }.addAll rest
      | .setting key value =>
          if reading.command.isNone then .error (.unknownArgument argument)
          else
            match value, rest with
            | some value, rest => do (← reading.set key value).addAll rest
            | none, value :: rest => do (← reading.set key value).addAll rest
            | none, [] => .error (.missingValue key.text)
      | .other text =>
          if reading.command.isSome || text.startsWith "-" then .error (.unknownArgument text)
          else if text == "instrument" || text == "i" then
            { reading with command := some text }.addAll rest
          else .error (.unknownCommand text)

def ofReading (reading : Reading) : Except UsageError Command := do
  if reading.command.isNone then throw .noCommand
  match reading.settings.lookup .path with
  | none => throw .missingPath
  | some path =>
      let chosen (key : Setting) (default : String) : String :=
        (reading.settings.lookup key).getD default
      return {
        options := {
          root := .ofText path
          appName := chosen .name ""
          agent := chosen .agent defaultAgentVariable }
        patchFile := .ofText (chosen .diff defaultPatchFile)
        debug := reading.debug }

/-- Reads the arguments of the program. -/
def ofArguments (arguments : List String) : Except UsageError Command := do
  ofReading (← ({} : Reading).addAll arguments)

/-- Runs the command on a disk; a system without the tool for modules is assumed. -/
def run (command : Command) (disk : Node) : Execution :=
  execute (Program.missingTool "go") disk command.options command.patchFile

end Command

/-- One line about a run that succeeded. -/
def Report.summary (report : Report) (patchFile : Path) : String :=
  "Patch written to " ++ patchFile.text ++ " (" ++ toString report.filesPatched ++
    " files changed, " ++ toString report.instrumented.length ++ " functions instrumented)"

end TraceWeave
