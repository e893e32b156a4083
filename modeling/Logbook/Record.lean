import Logbook.Failure
import Logbook.Diagnostic
import Logbook.Record.Outcome
import Logbook.Trace.Scope

/-!
# Records

A record describes one unit of work: what it was, who caused it, what it wrote into its scope and
how it ended. A record is begun, written to, ended and emitted. Its verdict only rises, the first
end fixes its duration, and it is emitted at most once.
-/

namespace Logbook

/-- A reading of the clocks: milliseconds of the calendar, nanoseconds of a clock that never goes
back. -/
structure Moment where
  millis : Nat
  nanos : Nat
  deriving DecidableEq, Repr

structure Record where
  begun : Moment
  actionType : String
  scope : Trace.Scope
  refId : Option String
  client : Option String
  requestBody : Option String
  responseBody : Option String
  errorCode : Option String
  errorMessage : Option String
  stackTrace : Option String
  outcome : Outcome
  /-- Nanoseconds from begin to end. -/
  elapsed : Option Nat
  emitted : Bool

namespace Record

variable (masked : Trace.Mask.Registry)

/-- A new record without a parent. Its type is also its first context. -/
def start (id : String) (now : Moment) (action actionType : String) : Record where
  begun := now
  actionType := actionType
  scope := (Trace.Scope.named id action).put masked "action_type" [actionType]
  refId := none
  client := none
  requestBody := none
  responseBody := none
  errorCode := none
  errorMessage := none
  stackTrace := none
  outcome := .ok
  elapsed := none
  emitted := false

/-- The action of work that a unit with the given link starts. -/
def childAction (parent : Trace.Link) (action : String) : String :=
  if parent.hasRoot then parent.action ++ ":task:" ++ action else action

/-- A new record caused by the unit with the given link. It refers to that unit if the unit has an
action. -/
def startChild (parent : Trace.Link) (id : String) (now : Moment) (action actionType : String) :
    Record :=
  { start masked id now (childAction parent action) actionType with
    refId := if parent.hasRoot then some parent.id else none }

def id (r : Record) : String := r.scope.id

def action (r : Record) : String := r.scope.action

def rename (action : String) (r : Record) : Record :=
  { r with scope := { r.scope with action := action } }

def put (key : String) (values : List String) (r : Record) : Record :=
  { r with scope := r.scope.put masked key values }

def setStat (key : String) (value : Float) (r : Record) : Record :=
  { r with scope := r.scope.setStat key value }

def addStat (key : String) (delta : Float) (r : Record) : Record :=
  { r with scope := r.scope.addStat key delta }

def escalate (outcome : Outcome) (r : Record) : Record :=
  { r with outcome := r.outcome.worst outcome }

def fail (code message stackTrace : String) (r : Record) : Record :=
  { r with errorCode := some code, errorMessage := some message,
           stackTrace := some stackTrace }.escalate .error

/-- Marks the record failed with a failure and the trace of the place where it was noticed. -/
def fault (failure : Failure) (trace : String) (r : Record) : Record :=
  let r := r.put masked "status" [toString failure.status]
  let r := match failure.location? with
    | some location => r.put masked "location" [location]
    | none => r
  r.fail failure.code failure.message trace

def faultNotice (failure : Failure) (r : Record) : Diagnostic :=
  .warning "Unit of work failed"
    [("action", r.action), ("error_code", failure.code), ("error", failure.message)]

/-- Ends the record; only the first end counts. -/
def finish (now : Moment) (r : Record) : Record :=
  match r.elapsed with
  | some _ => r
  | none => { r with elapsed := some (now.nanos - r.begun.nanos) }

def finishWith (outcome : Outcome) (now : Moment) (r : Record) : Record :=
  (r.escalate outcome).finish now

end Record

end Logbook
