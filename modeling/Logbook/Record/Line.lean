import Logbook.Json
import Logbook.Record
import Logbook.Time.Date

/-!
# Lines of records

A record is written as one flat JSON object. Unset and empty texts are left out; bodies are masked.
A context list of one value is written as that value. `emit` writes the line once.
-/

namespace Logbook.Record

def optionalMember (key : String) (value : Option String) : List (String × Json) :=
  match value with
  | some text => if text.isEmpty then [] else [(key, .string text)]
  | none => []

def bodyMember (masked : Trace.Mask.Registry) (key : String) (body : Option String) :
    List (String × Json) :=
  match body with
  | some text => [(key, .string (masked.redact text))]
  | none => []

/-- The values of a context key. -/
def contextValue : List String → Json
  | [value] => .string value
  | values => .array (values.map Json.string)

/-- A stat; what is not finite is written as nothing. -/
def statValue (x : Float) : Json := if Decimal.isFinite x then .real x else .null

def members (masked : Trace.Mask.Registry) (r : Record) : List (String × Json) :=
  [("id", .string r.id), ("date", .string (Date.text r.begun.millis)),
    ("action", .string r.action), ("action_type", .string r.actionType),
    ("result", .string r.outcome.name)] ++
  optionalMember "ref_id" r.refId ++
  optionalMember "client" r.client ++
  optionalMember "error_code" r.errorCode ++
  optionalMember "error_message" r.errorMessage ++
  [("elapsed", .integer (r.elapsed.getD 0))] ++
  bodyMember masked "request_body" r.requestBody ++
  bodyMember masked "response_body" r.responseBody ++
  optionalMember "stack_trace" r.stackTrace ++
  (r.scope.context.entries.map fun (key, values) => ("context." ++ key, contextValue values)) ++
  r.scope.stats.entries.map fun (key, value) => ("stat." ++ key, statValue value)

def toJson (masked : Trace.Mask.Registry) (r : Record) : Json := .object (r.members masked)

def line (masked : Trace.Mask.Registry) (r : Record) : String := (r.toJson masked).text

/-- A line on its way to a sink, with the verdict that is counted. -/
structure Emission where
  line : String
  outcome : Outcome
  deriving DecidableEq, Repr

/-- Ends the record if it has not ended, gives its line and releases its scope. A record that has
been emitted gives nothing more. -/
def emit (masked : Trace.Mask.Registry) (now : Moment) (r : Record) : Option Emission × Record :=
  if r.emitted then (none, r)
  else
    let r := r.finish now
    (some ⟨r.line masked, r.outcome⟩, { r with emitted := true, scope := r.scope.release })

end Logbook.Record
