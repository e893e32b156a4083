import Logbook.Rehearsal.Answer
import Logbook.Rehearsal.Script
import Logbook.Shutdown.Sequencer
import Logbook.Shutdown.Standard

/-!
# Activities

What a fiber of a rehearsal is busy with. An activity holds everything that is needed to go on with
it after a wait.
-/

namespace Logbook.Rehearsal

abbrev FiberId := Nat

/-- The number of a pool. Of pools with one name the script means the last. -/
abbrev PoolId := Nat

/-- The script is the first fiber. -/
def scriptFiber : FiberId := 0

inductive Hook where
  | scripted (hook : ScriptedHook)
  | standard (hook : Shutdown.Standard PoolId)

inductive Pause where
  | over
  | until (due : Nat)
  | gate (name : String)

/-- The steps that are left of a body. -/
structure Body where
  steps : List Step
  pause : Pause

def Body.of (steps : List Step) : Body := ⟨steps, .over⟩

structure Job where
  link : Trace.Link
  action : String
  steps : List Step

/-- A unit of work begins its record when it first runs. -/
inductive UnitRun where
  | fresh (job : Job)
  | running (record : Record) (body : Body)

inductive WorkerPhase where
  /-- About to stand in line for the queue. -/
  | arriving
  /-- In line, or first in line and waiting for a job. -/
  | standing
  | working (unit : UnitRun)

inductive Awaited where
  | tracker
  | pool (id : PoolId)
  | idle
  | shipper
  | listener
  deriving DecidableEq

structure Wait where
  what : Awaited
  due : Nat
  budget : Nat

inductive Serving where
  | arriving (request : Http.Request) (steps : List Step) (bare : Bool)
  /-- Its handler runs; the slot of its record, if it is tracked, and the record, if the handler
  holds it. -/
  | handling (request : Http.Request) (slot : Option Nat) (held : Option Record) (body : Body)

/-- A hook on the way. One that stands alone has a scope of its own. -/
inductive HookRun where
  | scripted (budget : Nat) (own : Option Trace.Scope) (body : Body)
  | awaiting (wait : Wait)

inductive DrainRun where
  | arriving
  | delaying (due : Nat)
  | draining (drain : Shutdown.Drain Hook) (hook : Option HookRun)

/-- What the script is busy with between two orders. -/
inductive Doing where
  | nothing
  | advancing (due : Nat)
  /-- Lets all others run until they wait. -/
  | settling
  /-- There are no more orders; the others run until they wait. -/
  | leaving
  | draining (run : DrainRun)
  | serving (run : Serving)
  | awaiting (wait : Wait) (quiet : Bool)
  | starting (run : Startup.Run Entry) (entry : Option (Nat × Option String))

inductive Activity where
  /-- The script: the orders that are left, what it is busy with, the answers so far, the last
  first. -/
  | script (orders : List Order) (doing : Doing) (answers : List (Nat × Answer))
  | unit (joined : Bool) (run : UnitRun)
  | worker (pool : PoolId) (phase : WorkerPhase)
  | request (run : Serving)
  /-- Holds the record of a request for a while. -/
  | holding (slot : Nat) (record : Record) (millis : Nat) (due : Option Nat) (key : String)
      (values : List String)
  | drain (run : DrainRun)
  /-- Ships lines; the time of the next call of the writer, if it is fixed. -/
  | shipping (due : Option Nat)

end Logbook.Rehearsal
