import Logbook.Http.Response
import Logbook.Record
import Logbook.Shutdown.Sequencer
import Logbook.Startup
import Logbook.Work.Pool

/-!
# Answers

What a rehearsal answers to an order.
-/

namespace Logbook.Rehearsal

inductive Answer where
  | nothing
  | done
  | flag (b : Bool)
  | number (n : Nat)
  | numbers (ns : List Nat)
  | flags (flags : Shutdown.Flags)
  /-- The state of a log. -/
  | log (record : Record)
  /-- The line of a log. -/
  | line (text : String)
  | load (pool : String) (load : Work.Load)
  | tracker (count : Nat) (closed : Bool)
  | pending (phase : Startup.Phase) (count : Nat)
  | response (response : Http.Response)
  | unknown
  | noPool
  | refused (refusal : Work.Refusal)
  | startupFailed (error : Startup.StartError)
  /-- The order ended in a panic. -/
  | panicked

namespace Answer

def optional (text : Option String) : Json := (text.map Json.string).getD .null

def floatText (x : Float) : Json := .string (String.ofList (Decimal.render Decimal.stat x))

def scope (s : Trace.Scope) : Json :=
  .object [
    ("context", .array (s.context.entries.map fun (key, values) =>
      .array [.string key, .array (values.map .string)])),
    ("stats", .array (s.stats.entries.map fun (key, x) => .array [.string key, floatText x]))]

def error (kind : String) (message : Option String) : Json :=
  .object (("error", .string kind) ::
    match message with
    | some text => [("message", .string text)]
    | none => [])

/-- The state of a record, with labels in place of identifiers. -/
def logJson (label : String → String) (r : Record) : Json :=
  .object [
    ("id", .string (label r.id)), ("action", .string r.action),
    ("action_type", .string r.actionType), ("ref_id", optional (r.refId.map label)),
    ("result", .string r.outcome.name), ("ended", .bool r.elapsed.isSome),
    ("emitted", .bool r.emitted),
    ("error", .array [optional r.errorCode, optional r.errorMessage]),
    ("stack_trace", optional r.stackTrace), ("scope", scope r.scope)]

def responseJson (r : Http.Response) : Json :=
  .object [("status", .integer r.status), ("body", .string r.body)]

/-- An answer as it is written. `label` names identifiers, `relabel` does so inside lines. -/
def toJson (label relabel : String → String) : Answer → Json
  | nothing => .null
  | done => .string "ok"
  | flag b => .bool b
  | number n => .integer n
  | numbers ns => .array (ns.map fun (n : Nat) => .integer n)
  | flags f => .array [.bool f.shutdown, .bool f.afterDelay]
  | log r => logJson label r
  | line text => .string (relabel text)
  | load pool l =>
    .object [("name", .string pool), ("running", .integer l.running), ("free", .integer l.free),
      ("waiting", .integer l.waiting)]
  | tracker count closed => .object [("len", .integer count), ("closed", .bool closed)]
  | pending phase count => .array [.string phase.name, .integer count]
  | response r => responseJson r
  | unknown => error "UnknownOp" none
  | noPool => error "NoExecutor" none
  | refused r => error "ExecutorError" (some r.message)
  | startupFailed e => error "StartupError" (some e.text)
  | panicked => error "panic" none

end Answer

end Logbook.Rehearsal
