import Logbook.Rehearsal.Waits

/-!
# Drains of a rehearsal

A drain goes through its delay and its stages by the moves of the sequencer. Scripted hooks run
their steps, standard hooks close things and wait for them. A hook that panics takes its drain with
it.
-/

namespace Logbook.Rehearsal

inductive Drained where
  | next (n : Next DrainRun)
  | finished
  | panicked

namespace World

/-- Calls a hook: it has returned at once, or it is on the way. -/
def callHook (fiber : FiberId) (hook : Hook) (budget : Nat) (scope : Trace.Scope) (w : World) :
    Option HookRun × World :=
  let waiting (wait : Wait) (w : World) : Option HookRun × World := (some (.awaiting wait), w)
  match hook with
  | .scripted h =>
    let own := if h.alone then some Trace.Scope.detached else none
    let shown := (own.getD scope).action
    let text := "hook " ++ h.label ++ " stage=" ++ toString h.stage ++ " budget=" ++
      toString budget ++ " scope=" ++ shown
    (some (.scripted budget own (.of h.steps)), w.call text)
  | .standard h =>
    match h with
    | .closeTracker => (none, w.updateTracker Work.Tracker.close)
    | .awaitTracker =>
      let (wait, w) := w.awaitTracker fiber budget
      waiting wait w
    | .closePool i => (none, w.closePool i)
    | .awaitPool i => waiting (w.waitFor (.pool i) budget) w
    | .refuseRequests => (none, w)
    | .awaitRequests => waiting (w.waitFor .idle budget) w
    | .stopListener =>
      let (wait, w) := w.stopListener budget
      (wait.map .awaiting, w)
    | .stopShipping =>
      let (wait, w) := w.stopShipper budget
      (wait.map .awaiting, w)

def moveHook (fiber : FiberId) (drain : Shutdown.Drain Hook) (hook : HookRun) (w : World) :
    Drained × World :=
  let returned (drain : Shutdown.Drain Hook) (w : World) : Drained × World :=
    (.next (.go (.draining drain none)), w)
  match hook with
  | .awaiting wait =>
    match w.lookAt fiber wait with
    | (some _, w) => returned drain w
    | (none, w) => (.next (.wait (.draining drain (some hook))), w)
  | .scripted budget own body =>
    match w.isOver fiber body.pause with
    | (false, w) => (.next (.wait (.draining drain (some hook))), w)
    | (true, w) =>
      match body.steps with
      | [] => returned drain w
      | step :: steps =>
        let (after, scope, w) :=
          w.perform fiber (some budget) step (own.getD drain.carrier.scope)
        let drain := if own.isSome then drain else
          { drain with carrier := drain.carrier.modify fun _ => scope }
        let own := own.map fun _ => scope
        match after with
        | .goOn pause =>
          (.next (.go (.draining drain (some (.scripted budget own ⟨steps, pause⟩)))), w)
        | .stop (.panicked _) => (.panicked, w)
        | .stop _ => returned drain w

def beginStages (w : World) : Drained × World :=
  let w := { w with sequencer := w.sequencer.passDelay }
  let (id, moment, w) := w.newId
  match Shutdown.Drain.start? w.masked w.now w.sequencer.timeout id moment with
  | none => (.panicked, w)
  | some drain => (.next (.go (.draining drain none)), w)

def moveStages (fiber : FiberId) (drain : Shutdown.Drain Hook) (w : World) : Drained × World :=
  let (moment, w) := w.read
  let (move, drain, sequencer) := drain.step w.masked w.now moment w.sequencer
  let w := { w with sequencer := sequencer }
  let goOn (w : World) : Drained × World := (.next (.go (.draining drain none)), w)
  match move with
  | .call hook budget =>
    let (run, w) := w.callHook fiber hook budget drain.carrier.scope
    (.next (.go (.draining drain run)), w)
  | .opened _ => goOn w
  | .closed stage hooks => goOn { w with metrics := w.metrics.recordStage stage.index hooks }
  | .emitted emission => goOn (w.emit emission)
  | .finished => (.finished, w.call "shutdown done")

def moveDrain (fiber : FiberId) (run : DrainRun) (w : World) : Drained × World :=
  match run with
  | .arriving =>
    let w := { w with sequencer := w.sequencer.announce }
    match w.sequencer.delay with
    | none => w.beginStages
    | some delay =>
      if delay = 0 then w.beginStages
      else (.next (.wait (.delaying (w.now + delay))), w.setTimer (w.now + delay) fiber)
  | .delaying due => if due ≤ w.now then w.beginStages else (.next (.wait run), w)
  | .draining drain none => w.moveStages fiber drain
  | .draining drain (some hook) => w.moveHook fiber drain hook

/-- The standard hooks of a part of the service; none if the part is not there. -/
def standardHooks (what : Registrant) (w : World) :
    List (Shutdown.Stage × Shutdown.Standard PoolId) :=
  match what with
  | .tracker => Shutdown.Standard.tracker
  | .server => Shutdown.Standard.server
  | .shipper => if w.sink = .shipper then Shutdown.Standard.shipper else []
  | .pool name =>
    match lookup name w.poolIds with
    | some i => Shutdown.Standard.pool i
    | none => []

def register (what : Registrant) (w : World) : World :=
  let hooks := (w.standardHooks what).map fun (stage, hook) => (stage, Hook.standard hook)
  { w with sequencer := w.sequencer.addAll hooks }

end World

end Logbook.Rehearsal
