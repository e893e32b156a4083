/-!
# Command lines

The service takes one option, the path of its configuration, and a request for help. Arguments are
read from left to right, and the first that decides ends the reading: a request for help, or a
fault.
-/

namespace Logbook

inductive CommandLine.Fault where
  | unexpected (argument : String)
  | missingValue
  | repeated
  | valueForHelp (value : String)
  deriving DecidableEq, Repr

/-- What a command line asks for: help, or a run with the configuration of a file or the default
one. -/
inductive CommandLine where
  | help
  | faulty (fault : CommandLine.Fault)
  | run (config : Option String)
  deriving DecidableEq, Repr

namespace CommandLine

inductive Word where
  | help
  | helpWith (value : String)
  /-- The option; its value, if it is attached. -/
  | config (value : Option String)
  /-- What follows is no option. -/
  | separator
  | other
  deriving DecidableEq, Repr

def attached? : List Char → Option String
  | '=' :: value => some (String.ofList value)
  | _ => none

/-- A long name may have a value behind an equals sign; a short one is followed by its value at once
or behind an equals sign. -/
def Word.ofArgument (argument : String) : Word :=
  match argument.toList with
  | ['-', '-'] => .separator
  | '-' :: '-' :: text =>
    let name := String.ofList (text.takeWhile (· ≠ '='))
    let value := attached? (text.dropWhile (· ≠ '='))
    if name = "config" then .config value
    else if name = "help" then
      match value with
      | some value => .helpWith value
      | none => .help
    else .other
  | '-' :: 'h' :: _ => .help
  | ['-', 'c'] => .config none
  | '-' :: 'c' :: text => .config ((attached? text).getD (String.ofList text))
  | _ => .other

/-- Whether an argument cannot be the value of an option that stands before it. -/
def isFlag (argument : String) : Bool :=
  match argument.toList with
  | '-' :: _ :: _ => true
  | _ => false

/-- Reads arguments when the path is known already or not. A path is given once and is not empty. -/
def readFrom (config : Option String) : List String → CommandLine
  | [] => .run config
  | argument :: arguments =>
    match Word.ofArgument argument with
    | .help => .help
    | .helpWith value => .faulty (.valueForHelp value)
    | .other => .faulty (.unexpected argument)
    | .separator =>
      match arguments with
      | [] => .run config
      | next :: _ => .faulty (.unexpected next)
    | .config (some value) =>
      if value.isEmpty then .faulty .missingValue
      else if config.isSome then .faulty .repeated
      else readFrom (some value) arguments
    | .config none =>
      match arguments with
      | [] => .faulty .missingValue
      | value :: arguments =>
        if isFlag value ∨ value.isEmpty then .faulty .missingValue
        else if config.isSome then .faulty .repeated
        else readFrom (some value) arguments

def read (arguments : List String) : CommandLine := readFrom none arguments

/-! ## Texts -/

def program : String := "actionkit"

def usage : String := "Usage: " ++ program ++ " [OPTIONS]"

def helpText : String :=
  "Action-logged service with staged graceful shutdown\n\n" ++ usage ++ "\n\nOptions:\n" ++
    "  -c, --config <CONFIG>  TOML configuration file. Defaults apply when omitted\n" ++
    "  -h, --help             Print help\n"

def Fault.message : Fault → String
  | .unexpected argument => "unexpected argument '" ++ argument ++ "' found"
  | .missingValue => "a value is required for '--config <CONFIG>' but none was supplied"
  | .repeated => "the argument '--config <CONFIG>' cannot be used multiple times"
  | .valueForHelp value =>
    "unexpected value '" ++ value ++ "' for '--help' found; no more were expected"

def Fault.text (f : Fault) : String :=
  let hint := match f with
    | .missingValue => ""
    | _ => usage ++ "\n\n"
  "error: " ++ f.message ++ "\n\n" ++ hint ++ "For more information, try '--help'.\n"

end CommandLine

end Logbook
