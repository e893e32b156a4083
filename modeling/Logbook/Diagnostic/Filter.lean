import Logbook.Diagnostic
import Logbook.Json
import Logbook.Text.Ascii
import Logbook.Text.Blank
import Logbook.Time.Date

/-!
# Filtering and writing diagnostics

A filter is a list of directives, each with a target and the most verbose level that it lets
through. Of the directives whose target is at the front of that of an event, the longest decides.
What passes is written as one line, a JSON object or plain text.
-/

namespace Logbook.Diagnostic

/-- Levels by verbosity; zero lets nothing through. -/
def Level.verbosity : Level → Nat
  | .error => 1
  | .warn => 2
  | .info => 3

/-- A directive for the events of a target. One that names a span is for events inside spans only,
and the events of this service are in none. -/
structure Directive where
  target : List Char
  inSpan : Bool
  verbosity : Nat
  deriving DecidableEq, Repr

/-- The verbosity of a name, in any case of its letters, or of a digit. -/
def verbosity? (name : List Char) : Option Nat :=
  let name := String.ofList (Ascii.foldText name)
  (["off", "error", "warn", "info", "debug", "trace"].idxOf? name).or
    (["0", "1", "2", "3", "4", "5"].idxOf? name)

def isTargetChar (c : Char) : Bool := c.isAlphanum ∨ c = '_' ∨ c = ':' ∨ c = '-'

/-- The text behind a span in brackets, if it starts with one. -/
def skipSpan? : List Char → Option (List Char)
  | '[' :: text => match text.dropWhile (· ≠ ']') with
    | _ :: rest => some rest
    | [] => none
  | _ => none

/-- A target and a span, in either order, of which one may be missing; and the text behind them. -/
def scope? (text : List Char) : Option ((List Char × Bool) × List Char) :=
  let target (text : List Char) := text.takeWhile isTargetChar
  let behind (text : List Char) := text.dropWhile isTargetChar
  match skipSpan? text with
  | some rest => some ((target rest, true), behind rest)
  | none =>
    if (target text).isEmpty then none
    else match skipSpan? (behind text) with
      | some rest => some ((target text, true), rest)
      | none => some ((target text, false), behind text)

/-- Reads a level alone, or a target or a span with a level behind an equals sign; without a level
all is let through. -/
def Directive.read? (text : List Char) : Option Directive :=
  match verbosity? text with
  | some v => some ⟨[], false, v⟩
  | none => do
    let ((target, inSpan), rest) ← scope? text
    match rest with
    | [] | ['='] => some ⟨target, inSpan, 5⟩
    | '=' :: level => (verbosity? level).map fun v => ⟨target, inSpan, v⟩
    | _ => none

abbrev Filter := List Directive

namespace Filter

/-- The parts of a text between commas, without those that are blank. -/
def parts (text : String) : List (List Char) :=
  (text.toList.splitOnP (· = ',')).map Blank.trim |>.filter fun part => !part.isEmpty

/-- Reads a filter in which every directive must be right. -/
def read? (text : String) : Option Filter := (parts text).mapM Directive.read?

/-- The filter of a configured level, which lets records through. -/
def ofLevel (level : String) : Filter :=
  (parts (level ++ ",action_log=info")).filterMap Directive.read?

/-- Whether an event of a target and a level passes. Without directives errors pass. -/
def admitsEvent (target : String) (level : Level) (f : Filter) : Bool :=
  let fitting := f.filter fun d => !d.inSpan && d.target.isPrefixOf target.toList
  let longest := (fitting.map fun d => d.target.length).foldl max 0
  match (fitting.filter fun d => d.target.length = longest).getLast? with
  | some d => level.verbosity ≤ d.verbosity
  | none => f.isEmpty && level.verbosity ≤ 1

end Filter

def jsonLine (millis : Nat) (target : String) (d : Diagnostic) : String :=
  (Json.object (
    [("timestamp", .string (Date.text millis)), ("level", .string d.level.name),
      ("message", .string d.message)] ++
    (d.fields.map fun (name, value) => (name, Json.string value)) ++
    [("target", .string target)])).text

def plainLine (millis : Nat) (target : String) (d : Diagnostic) : String :=
  String.intercalate " " (Date.text millis :: d.level.name :: (target ++ ":") :: d.message ::
    d.fields.map fun (name, value) => name ++ "=" ++ value)

end Logbook.Diagnostic
