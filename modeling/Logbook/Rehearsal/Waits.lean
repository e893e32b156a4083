import Logbook.Rehearsal.Bodies

/-!
# Waits for a limited time

Waiting for the tracker to be drained, for the workers of a pool to leave, for the last request, for
the worker of the shipper, or for the task of the listener. A wait ends as soon as what it waits for
has come, at its deadline at the latest, and what is overdue then is reported. -/

namespace Logbook.Rehearsal.World

/-- Ends a wait: its timer is not needed any more. -/
def endWait (fiber : FiberId) (result : Bool) (w : World) : Option Bool × World :=
  (some result, w.dropTimer fiber)

def keepWaiting (fiber : FiberId) (due : Nat) (w : World) : Option Bool × World :=
  (none, w.setTimer due fiber)

def lookAtTracker (fiber : FiberId) (wait : Wait) (w : World) : Option Bool × World :=
  let strike (w : World) : World := { w with trackerWaiters := w.trackerWaiters.strike fiber }
  match w.tracker.awaited (!w.trackerWaiters.isListed fiber) wait.due w.now with
  | some true => (strike w).endWait fiber true
  | some false => ((strike w).warn (w.tracker.overdue wait.budget)).endWait fiber false
  | none => w.keepWaiting fiber wait.due

def lookAtPool (fiber : FiberId) (i : PoolId) (wait : Wait) (w : World) : Option Bool × World :=
  match w.pool? i with
  | none => w.endWait fiber true
  | some p =>
    match p.pool.awaited wait.due w.now with
    | some true => w.endWait fiber true
    | some false =>
      ((w.setPool i { p with leaving := p.leaving.strike fiber }).warn p.pool.overdue).endWait
        fiber false
    | none => (w.setPool i { p with leaving := p.leaving.enlist fiber }).keepWaiting fiber wait.due

def lookAtRequests (fiber : FiberId) (wait : Wait) (w : World) : Option Bool × World :=
  let (result, inFlight) := w.inFlight.look fiber wait.due w.now
  let w := { w with inFlight := inFlight }
  match result with
  | some true => w.endWait fiber true
  | some false => (w.warn (inFlight.overdue wait.budget)).endWait fiber false
  | none => w.keepWaiting fiber wait.due

def lookAtShipper (fiber : FiberId) (wait : Wait) (w : World) : Option Bool × World :=
  match w.shipper.look wait.due w.now with
  | some true => (w.reportAll (w.shipper.stopNotice wait.budget)).endWait fiber true
  | some false =>
    let w := { w with shipperWaiters := w.shipperWaiters.strike fiber }
    (w.reportAll (w.shipper.stopNotice wait.budget)).endWait fiber false
  | none => { w with shipperWaiters := w.shipperWaiters.enlist fiber }.keepWaiting fiber wait.due

def lookAtListener (fiber : FiberId) (wait : Wait) (w : World) : Option Bool × World :=
  match w.listener.awaited wait.due w.now with
  | some result => (w.reportAll w.listener.stopNotice).endWait fiber result
  | none => w.keepWaiting fiber wait.due

/-- Looks whether a wait is over, and whether what was awaited has come. -/
def lookAt (fiber : FiberId) (wait : Wait) (w : World) : Option Bool × World :=
  match wait.what with
  | .tracker => w.lookAtTracker fiber wait
  | .pool i => w.lookAtPool fiber i wait
  | .idle => w.lookAtRequests fiber wait
  | .shipper => w.lookAtShipper fiber wait
  | .listener => w.lookAtListener fiber wait

/-! ## Beginning a wait -/

def waitFor (what : Awaited) (budget : Nat) (w : World) : Wait := ⟨what, w.now + budget, budget⟩

def awaitTracker (fiber : FiberId) (budget : Nat) (w : World) : Wait × World :=
  let w := w.updateTracker Work.Tracker.close
  (w.waitFor .tracker budget, { w with trackerWaiters := w.trackerWaiters.enlist fiber })

/-- Stops the shipper; the first who does so waits for its worker, with some grace. -/
def stopShipper (budget : Nat) (w : World) : Option Wait × World :=
  if w.sink ≠ .shipper then (none, w)
  else
    let (waits, shipper) := w.shipper.halt
    let w := { w with shipper := shipper }.wake w.shipperFiber
    if waits then (some ⟨.shipper, w.now + budget + Delivery.Shipper.flushGrace, budget⟩, w)
    else (none, w)

/-- Stops the listener; the first who does so after it was started waits for its task. -/
def stopListener (budget : Nat) (w : World) : Option Wait × World :=
  let (serving, listener) := w.listener.stop
  let w := { w with listener := listener }
  if serving then (some (w.waitFor .listener budget), w) else (none, w)

end Logbook.Rehearsal.World
