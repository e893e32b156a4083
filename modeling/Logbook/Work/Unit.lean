import Logbook.Record.Line

/-!
# Units of work

A unit of work runs a body under a record of its own. However the body ends, the boundary of the
unit marks the record, ends it and emits it; nothing passes the boundary. Only a body that panics
before it has begun, while it is being made ready, takes its unit with it.
-/

namespace Logbook.Work

def taskType : String := "task"

def jobType : String := "executor"

inductive Ending where
  | returned
  | failed (failure : Failure)
  | panicked (payload : Payload)
  deriving DecidableEq, Repr

/-- The failure that an ending stands for. -/
def Ending.failure? : Ending → Option Failure
  | .returned => none
  | .failed failure => some failure
  | .panicked payload => some (.ofPayload payload)

def Ending.mark (masked : Trace.Mask.Registry) (trace : String) (e : Ending) (r : Record) :
    Record × List Diagnostic :=
  match e.failure? with
  | none => (r, [])
  | some failure =>
    let r := r.fault masked failure trace
    (r, [r.faultNotice failure])

/-- What a unit leaves behind. -/
structure Closed where
  record : Record
  emission : Option Record.Emission
  notices : List Diagnostic

def close (masked : Trace.Mask.Registry) (trace : String) (now : Moment) (e : Ending) (r : Record) :
    Closed :=
  let (r, notices) := e.mark masked trace r
  let (emission, r) := (r.finish now).emit masked now
  ⟨r, emission, notices⟩

/-- The course of a whole body: it panics before it begins, or it does something to the scope that
it is lent and ends. -/
inductive Course where
  | unready (payload : Payload)
  | ran (edits : List Trace.Scope.Edit) (ending : Ending)

def underway (masked : Trace.Mask.Registry) (parent : Trace.Link) (id : String) (begun : Moment)
    (action actionType : String) (edits : List Trace.Scope.Edit) : Record :=
  let r := Record.startChild masked parent id begun action actionType
  { r with scope := r.scope.editAll edits }

/-- Runs a unit from its begin to its end, with the masked names of both moments; a body that never
began leaves its panic. -/
def execute (masked later : Trace.Mask.Registry) (trace : String) (parent : Trace.Link)
    (id : String) (begun ended : Moment) (action actionType : String) :
    Course → Except Payload Closed
  | .unready payload => .error payload
  | .ran edits ending =>
    .ok (close later trace ended ending (underway masked parent id begun action actionType edits))

end Logbook.Work
