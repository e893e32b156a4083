import Logbook.Config.Decode
import Logbook.Config.Validation

/-!
# Loading configurations

A configuration is read from a document, changed by two variables of the environment, and accepted
if it violates no rule.
-/

namespace Logbook.Config

inductive File where
  | missing
  | directory
  | bytes (content : List UInt8)

inductive FileProblem where
  | missing
  | directory
  | notUtf8
  deriving DecidableEq, Repr

def FileProblem.message : FileProblem → String
  | .missing => "No such file or directory (os error 2)"
  | .directory => "Is a directory (os error 21)"
  | .notUtf8 => "stream did not contain valid UTF-8"

inductive LoadError where
  | file (problem : FileProblem)
  | parse (misfit : Misfit)
  | variable (name value : String)
  | invalid (violations : List Violation)

namespace LoadError

def kind : LoadError → String
  | .file _ => "Io"
  | .parse _ => "Parse"
  | .variable .. => "Env"
  | .invalid _ => "Validation"

/-- The text of the error; for a text that is not of the format there is none. -/
def message? : LoadError → Option String
  | .file problem => some ("IO error: " ++ problem.message)
  | .parse misfit => misfit.message?
  | .variable name value =>
    some ("Invalid " ++ name ++ ": '" ++ value ++ "' is not a whole number of seconds")
  | .invalid violations =>
    some ("Validation failed: " ++ String.intercalate ", " (violations.map Violation.text))

end LoadError

abbrev Environment := String → Option String

def timeoutVariable : String := "SHUTDOWN_TIMEOUT_IN_SEC"

def delayVariable : String := "SHUTDOWN_DELAY_IN_SEC"

/-- A number of seconds: a numeral below `2 ^ 64`, with white space around it. -/
def seconds? (value : String) : Option Nat :=
  Digits.read? 10 (Nat.pow 2 64) (Blank.trim value.toList)

def secondsIn (env : Environment) (name : String) : Except LoadError (Option Nat) :=
  match env name with
  | none => .ok none
  | some value =>
    match seconds? value with
    | none => .error (.variable name value)
    | some n => .ok (some n)

/-- Lets the environment override the timeout and the delay of the drain. -/
def override (env : Environment) (c : Config) : Except LoadError Config := do
  let timeout ← secondsIn env timeoutVariable
  let delay ← secondsIn env delayVariable
  .ok { c with shutdown :=
    { timeoutSecs := timeout.getD c.shutdown.timeoutSecs
      delaySecs := delay.or c.shutdown.delaySecs } }

def validated (c : Config) : Except LoadError Config :=
  if c.violations.isEmpty then .ok c else .error (.invalid c.violations)

def parse (document : String) (env : Environment) : Except LoadError Config := do
  let c ← (ofToml document).mapError LoadError.parse
  let c ← c.override env
  c.validated

def File.text : File → Except FileProblem String
  | .missing => .error .missing
  | .directory => .error .directory
  | .bytes content =>
    match String.fromUTF8? ⟨content.toArray⟩ with
    | some text => .ok text
    | none => .error .notUtf8

def load (file : File) (env : Environment) : Except LoadError Config := do
  let document ← file.text.mapError LoadError.file
  parse document env

end Logbook.Config
