import Logbook.Failure
import Logbook.Http.Request
import Logbook.Record.Outcome
import Logbook.Startup

/-!
# Scripts

A rehearsal runs a script: a list of orders to one service on a virtual clock. Tasks, hooks and
handlers that an order starts follow lists of steps.
-/

namespace Logbook.Rehearsal

inductive Target where
  /-- On the tracker. -/
  | joined
  | detached
  | pool (name : String)
  deriving DecidableEq, Repr

inductive Step where
  | put (key : String) (values : List String)
  | stat (key : String) (value : Float)
  | increase (key : String) (value : Float)
  | sleep (millis : Nat)
  /-- Sleeps, but no longer than the budget of a hook. -/
  | sleepBudget (millis : Nat)
  /-- Takes one permit of a gate. -/
  | gate (name : String)
  | spawn (name : Option String) (closure : Bool) (target : Target) (steps : List Step)
  /-- Tells the flags of the drain. -/
  | flags
  | closePool (name : String)
  | addHook (stage : Nat) (label : String) (alone : Bool) (steps : List Step)
  | event (text : String)
  | fail (failure : Failure)
  | panic (payload : Payload)
  | requestBody (text : String)
  | responseBody (text : String)
  /-- Gives the record of a request back. -/
  | giveBack
  /-- Gives the record to a piece of work that waits, writes and drops it. -/
  | hold (millis : Nat) (key : String) (values : List String)
  | reply (status : Nat) (body : String)
  | nothing
  deriving Nonempty

/-- A hook of a script; one that stands alone writes into a scope of its own. -/
structure ScriptedHook where
  label : String
  stage : Nat
  alone : Bool
  steps : List Step

structure Entry where
  label : String
  millis : Nat
  error : Option String

inductive Parent where
  | log (handle : String)
  | given (link : Trace.Link)
  | nobody

inductive LogOrder where
  | rename (action : String)
  | client (text : String)
  | requestBody (text : String)
  | responseBody (text : String)
  | put (key : String) (values : List String)
  | stat (key : String) (value : Float)
  | increase (key : String) (value : Float)
  | escalate (outcome : Outcome)
  | endWith (outcome : Outcome)
  | fail (code message trace : String)
  | failure (failure : Failure)
  | finish
  | output
  | look

inductive Registrant where
  | tracker
  | server
  | shipper
  | pool (name : String)

inductive Order where
  | mask (names : List String)
  | start (log action actionType : String)
  | startChild (log : String) (parent : Parent) (action actionType : String)
  | log (log : String) (order : LogOrder)
  | line (log : String)
  | spawn (parent : Parent) (name : Option String) (closure : Bool) (target : Target)
      (steps : List Step)
  | advance (millis : Nat)
  | openGate (name : String) (permits : Nat)
  | pool (name : String) (size : Nat)
  | load (pool : String)
  | closePool (pool : String)
  | awaitPool (pool : String) (budget : Nat)
  | tracker
  | register (what : Registrant)
  | hook (hook : ScriptedHook)
  | hookCount
  | flags
  | drain (background : Bool)
  | request (request : Http.Request) (steps : List Step) (background bare : Bool)
  | inFlight
  | awaitIdle (budget : Nat)
  | stopServer (budget : Nat)
  | addEntry (phase : Startup.Phase) (entry : Entry)
  | pendingEntries (phase : Startup.Phase)
  | startup (phases : List Startup.Phase)
  | emit (text : String)
  | stopShipper (budget : Nat)
  | shipperRunning
  | stageMetric (stage hooks : Nat)
  | loadMetric (pool : String) (running free waiting : Nat)
  | unknown

inductive SinkChoice where
  | nowhere
  | tracing
  | memory
  | shipper
  deriving DecidableEq, Repr

/-- How the writer of the shipper behaves: how long it waits before each call, how many bytes it
accepts at once if there is a limit, which calls fail or panic, and whether flushing fails. -/
structure WriterPlan where
  stall : Nat
  chunk : Option Nat
  failAt : List Nat
  panicAt : List Nat
  failFlush : Bool

structure Script where
  orders : List Order
  timeout : Nat
  delay : Option Nat
  sink : SinkChoice
  writer : WriterPlan
  /-- The action that is looked for in memory. -/
  find : String

end Logbook.Rehearsal
