import Logbook.Rehearsal.Bodies

/-!
# The worker of the shipper

One move of the worker: it takes a line, waits before a call of the writer, makes the call, or
flushes the writer and ends.
-/

namespace Logbook.Rehearsal

def WriterPlan.writer (p : WriterPlan) : Delivery.Writer where
  call n offered :=
    if n ∈ p.panicAt then .panics
    else if n ∈ p.failAt then .fails "disk full"
    else .accepts (min (p.chunk.getD offered) offered)
  flush := if p.failFlush then .error "flush refused" else .ok ()

namespace World

/-- The worker is gone; who waits for it may go on. -/
def endShipping (w : World) : World :=
  let (released, waiters) := w.shipperWaiters.ring
  { w with shipperWaiters := waiters }.wakeAll released

def callWriter (w : World) : Next (Option Nat) × World :=
  let (shipper, notices) := w.shipper.write w.plan.writer
  let w := { w with shipper := shipper }.reportAll notices
  if shipper.isOver then (.over, w.endShipping) else (.go none, w)

def moveShipping (fiber : FiberId) (due : Option Nat) (w : World) : Next (Option Nat) × World :=
  match w.shipper.worker with
  | .writing _ =>
    match due with
    | some due => if due ≤ w.now then w.callWriter else (.wait (some due), w)
    | none =>
      if w.plan.stall = 0 then w.callWriter
      else (.wait (some (w.now + w.plan.stall)), w.setTimer (w.now + w.plan.stall) fiber)
  | .idle =>
    match w.shipper.pick? with
    | some shipper => (.go none, { w with shipper := shipper })
    | none =>
      if w.shipper.mayFlush then
        let (shipper, notices) := w.shipper.flush w.plan.writer
        (.over, ({ w with shipper := shipper }.reportAll notices).endShipping)
      else (.wait none, w)
  | .ended | .crashed => (.over, w)

end World

end Logbook.Rehearsal
