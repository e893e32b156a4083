import Logbook.Http.Response
import Logbook.Record.Line

/-!
# Handing over the record of a request

The record of a request lies in a slot. A handler takes it out and works on it, and whoever holds it
gives it back at the end. If the request is answered while the record is out, the completion waits
in the slot, and the record is completed when it is given back. So a record is completed once, by
whoever comes second.
-/

namespace Logbook.Http

structure Completion where
  status : Nat
  failure : Option Failure
  deriving DecidableEq, Repr

/-- The slot: the record, if it is not out, and a completion that waits for it. -/
structure Handoff where
  record : Option Record
  pending : Option Completion

inductive Reply where
  | responded (response : Response)
  | panicked (payload : Payload)

structure Completed where
  record : Record
  emission : Option Record.Emission
  notices : List Diagnostic

namespace Completion

def isServerError (status : Nat) : Bool := 500 ≤ status ∧ status < 600

/-- Writes the answer into the record: a failure with an error of the server is a fault, any other
is told by its code; a fault that was marked before keeps its status. -/
def mark (masked : Trace.Mask.Registry) (trace : String) (c : Completion) (r : Record) :
    Record × List Diagnostic :=
  match c.failure with
  | some failure =>
    if isServerError c.status then
      let r := r.fault masked failure trace
      (r, [r.faultNotice failure])
    else
      ((r.put masked "status" [toString c.status]).put masked "error_code" [failure.code], [])
  | none =>
    if r.errorCode.isNone then (r.put masked "status" [toString c.status], []) else (r, [])

/-- Writes the answer into the record, ends it and emits it. -/
def apply (masked : Trace.Mask.Registry) (trace : String) (now : Moment) (c : Completion)
    (r : Record) : Completed :=
  let (r, notices) := c.mark masked trace r
  let (emission, r) := ((r.escalate (.ofStatus c.status)).finish now).emit masked now
  ⟨r, emission, notices⟩

end Completion

namespace Handoff

def holding (r : Record) : Handoff := ⟨some r, none⟩

/-- Takes the record out, if it is there. -/
def take? (h : Handoff) : Option (Record × Handoff) :=
  h.record.map fun r => (r, { h with record := none })

/-- Gives the record back: into the slot, or into the completion that waits for it. -/
def giveBack (masked : Trace.Mask.Registry) (trace : String) (now : Moment) (r : Record)
    (h : Handoff) : Handoff × Option Completed :=
  match h.pending with
  | some c => ({ h with pending := none }, some (c.apply masked trace now r))
  | none => ({ h with record := some r }, none)

/-- Answers the request when its handler has ended. A panic is a fault of the record if it is there,
and a failure to be told later if it is out. -/
def answer (masked : Trace.Mask.Registry) (trace : String) (now : Moment) (o : Reply)
    (h : Handoff) : Response × Handoff × Option Completed :=
  let response : Response := match o with
    | .responded response => { response with failure := none }
    | .panicked _ => .panicked
  match h.record, o with
  | some r, .responded given =>
    let c : Completion := ⟨given.status, given.failure⟩
    (response, { h with record := none }, some (c.apply masked trace now r))
  | some r, .panicked payload =>
    let failure := Failure.ofPayload payload
    let r := r.fault masked failure trace
    let c : Completion := ⟨Response.panicked.status, none⟩
    let done := c.apply masked trace now r
    (response, { h with record := none },
      some { done with notices := r.faultNotice failure :: done.notices })
  | none, .responded given =>
    (response, { h with pending := some ⟨given.status, given.failure⟩ }, none)
  | none, .panicked payload =>
    (response,
      { h with pending := some ⟨Response.panicked.status, some (Failure.ofPayload payload)⟩ }, none)

end Handoff

end Logbook.Http
