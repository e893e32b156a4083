import Logbook.Rehearsal.World
import Logbook.Trace.TypePath

/-!
# Bodies

How tasks, jobs and hooks go through their steps. One step is made at a time; after it a body goes
on, waits, or has ended.
-/

namespace Logbook.Rehearsal

/-- What a fiber does after a move: it goes on, waits to be woken, or is gone. -/
inductive Next (α : Type) where
  | go (a : α)
  | wait (a : α)
  | over
  deriving Inhabited

def Next.map {α β : Type} (f : α → β) : Next α → Next β
  | .go a => .go (f a)
  | .wait a => .wait (f a)
  | .over => .over

namespace World

def closeNamed (name : String) (w : World) : World :=
  match lookup name w.poolIds with
  | some i => w.closePool i
  | none => w

/-! ## Starting units -/

/-- The name of a unit without one: from the type of a task, or from the function that encloses a
closure. -/
def defaultName (closure : Bool) : String :=
  let path :=
    if closure then "rehearsal::start::\x7b\x7bclosure\x7d\x7d" else "rehearsal::ScriptTask"
  String.ofList (Trace.TypePath.actionName path.toList)

def spawn (link : Trace.Link) (name : Option String) (closure : Bool) (target : Target)
    (steps : List Step) (w : World) : Answer × World :=
  match target with
  | .joined =>
    let job : Job := ⟨link, name.getD (defaultName closure), steps⟩
    (.done, (w.updateTracker Work.Tracker.join).launch (.unit true (.fresh job)))
  | .detached =>
    let job : Job := ⟨link, name.getD (defaultName closure), steps⟩
    (.done, w.launch (.unit false (.fresh job)))
  | .pool pool =>
    match (lookup pool w.poolIds).bind fun i => (w.pool? i).map fun p => (i, p) with
    | none => (.noPool, w)
    | some (i, p) =>
      match p.pool.submit ⟨link, name.getD (defaultName false), steps⟩ with
      | .error refusal => (.refused refusal, w)
      | .ok changed => (.done, (w.publishPool i { p with pool := changed }).wakeWorker p)

/-- Starts a unit from inside a body; a refusal becomes an event. -/
def spawnInside (link : Trace.Link) (name : Option String) (closure : Bool) (target : Target)
    (steps : List Step) (w : World) : World :=
  match w.spawn link name closure target steps with
  | (.done, w) => w
  | (refusal, w) => w.event ("spawn " ++ (refusal.toJson id id).text)

/-- Adds a hook; a stage that does not exist is passed over. -/
def addHook (hook : ScriptedHook) (w : World) : World :=
  match Shutdown.Stage.ofIndex? hook.stage with
  | none => w
  | some stage => { w with sequencer := w.sequencer.add stage (.scripted hook) }

def boolText (b : Bool) : String := if b then "true" else "false"

/-! ## Pauses -/

/-- The pause of a sleep; one that is over at once is no pause. -/
def sleep (fiber : FiberId) (millis : Nat) (w : World) : Pause × World :=
  if millis = 0 then (.over, w)
  else (.until (w.now + millis), w.setTimer (w.now + millis) fiber)

def pauseAtGate (fiber : FiberId) (name : String) (w : World) : Pause × World :=
  match w.askGate name fiber with
  | (true, w) => (.over, w)
  | (false, w) => (.gate name, w)

def isOver (fiber : FiberId) (p : Pause) (w : World) : Bool × World :=
  match p with
  | .over => (true, w)
  | .until due => (due ≤ w.now, w)
  | .gate name => w.askGate name fiber

/-! ## Steps -/

inductive After where
  | goOn (pause : Pause)
  | stop (ending : Work.Ending)

/-- One step of a task, a job or a hook with its scope. A hook has a budget. -/
def perform (fiber : FiberId) (budget : Option Nat) (step : Step) (scope : Trace.Scope)
    (w : World) : After × Trace.Scope × World :=
  let paused (r : Pause × World) : After × Trace.Scope × World := (.goOn r.1, scope, r.2)
  let done (w : World) : After × Trace.Scope × World := (.goOn .over, scope, w)
  match step with
  | .put key values => (.goOn .over, scope.put w.masked key values, w)
  | .stat key value => (.goOn .over, scope.setStat key value, w)
  | .increase key value => (.goOn .over, scope.addStat key value, w)
  | .sleep millis => paused (w.sleep fiber millis)
  | .sleepBudget millis => paused (w.sleep fiber (min millis (budget.getD millis)))
  | .gate name => paused (w.pauseAtGate fiber name)
  | .spawn name closure target steps => done (w.spawnInside scope.link name closure target steps)
  | .flags =>
    let f := w.sequencer.flags
    done (w.event ("flags " ++ boolText f.shutdown ++ " " ++ boolText f.afterDelay))
  | .closePool name => done (w.closeNamed name)
  | .addHook stage label alone steps => done (w.addHook ⟨label, stage, alone, steps⟩)
  | .event text => done (w.event (text ++ " [" ++ scope.action ++ "]"))
  | .fail failure => (.stop (.failed failure), scope, w)
  | .panic payload => (.stop (.panicked payload), scope, w)
  | _ => done w

/-! ## Units -/

def endUnit (ending : Work.Ending) (record : Record) (w : World) : World :=
  let (moment, w) := w.read
  let closed := Work.close w.masked trace moment ending record
  (w.reportAll closed.notices).emit closed.emission

/-- One move of a unit of work; it is over when its record has been emitted. -/
def moveUnit (fiber : FiberId) (actionType : String) (u : UnitRun) (w : World) :
    Next UnitRun × World :=
  match u with
  | .fresh job =>
    let (id, moment, w) := w.newId
    let record := Record.startChild w.masked job.link id moment job.action actionType
    (.go (.running record (.of job.steps)), w)
  | .running record body =>
    match w.isOver fiber body.pause with
    | (false, w) => (.wait u, w)
    | (true, w) =>
      match body.steps with
      | [] => (.over, w.endUnit .returned record)
      | step :: steps =>
        match w.perform fiber none step record.scope with
        | (.goOn pause, scope, w) =>
          (.go (.running { record with scope := scope } ⟨steps, pause⟩), w)
        | (.stop ending, scope, w) => (.over, w.endUnit ending { record with scope := scope })

/-- A worker in line takes a job, or leaves, or waits at the queue. When it has taken a job or has
left, the next in line is woken. -/
def moveStanding (fiber : FiberId) (i : PoolId) (p : PoolState) (w : World) :
    Next WorkerPhase × World :=
  match p.toCrew.turn fiber with
  | (.stays, _) => (.wait .standing, w)
  | (.takes job, crew) =>
    let p := { p with toCrew := crew }
    (.go (.working (.fresh job)), (w.publishPool i p).wakeWorker p)
  | (.leaves, crew) =>
    let (released, leaving) := if crew.pool.isTerminated then p.leaving.ring else ([], p.leaving)
    let p : PoolState := { toCrew := crew, leaving := leaving }
    (.over, ((w.setPool i p).wakeWorker p).wakeAll released)

def moveWorker (fiber : FiberId) (i : PoolId) (phase : WorkerPhase) (w : World) :
    Next WorkerPhase × World :=
  match w.pool? i with
  | none => (.over, w)
  | some p =>
    match phase with
    | .arriving => (.go .standing, w.setPool i { p with toCrew := p.toCrew.join fiber })
    | .standing => w.moveStanding fiber i p
    | .working u =>
      match w.moveUnit fiber Work.jobType u with
      | (.over, w) =>
        match w.pool? i with
        | none => (.over, w)
        | some p => (.go .arriving, w.publishPool i { p with pool := p.pool.finish })
      | (n, w) => (n.map .working, w)

def createPool (name : String) (size : Nat) (w : World) : World :=
  let p : PoolState := ⟨⟨.ofSize name size, []⟩, .none⟩
  let i := w.pools.length
  let w := { w with poolIds := assign name i w.poolIds }.publishPool i p
  (List.range p.pool.size).foldl (fun w _ => w.launch (.worker i .arriving)) w

end World

end Logbook.Rehearsal
