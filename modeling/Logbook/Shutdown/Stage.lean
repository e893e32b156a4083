/-!
# Stages of a drain

A drain goes through nine stages in a fixed order. The first seven belong to the record of the stop;
the log shipping and the listener stop after that record has been emitted. `budget` is what a hook
may still use of the time of the whole drain.
-/

namespace Logbook.Shutdown

inductive Stage where
  | stopAcceptingExternal
  | awaitExternal
  | stopExecutors
  | awaitExecutors
  | stopProducers
  | application
  | releaseClients
  | stopLogShipping
  | stopHttpListener
  deriving DecidableEq, Repr

namespace Stage

def all : List Stage :=
  [stopAcceptingExternal, awaitExternal, stopExecutors, awaitExecutors, stopProducers, application,
    releaseClients, stopLogShipping, stopHttpListener]

def index : Stage → Nat
  | stopAcceptingExternal => 0
  | awaitExternal => 1
  | stopExecutors => 2
  | awaitExecutors => 3
  | stopProducers => 4
  | application => 5
  | releaseClients => 6
  | stopLogShipping => 7
  | stopHttpListener => 8

def name : Stage → String
  | stopAcceptingExternal => "stop_accepting_external"
  | awaitExternal => "await_external"
  | stopExecutors => "stop_executors"
  | awaitExecutors => "await_executors"
  | stopProducers => "stop_producers"
  | application => "application"
  | releaseClients => "release_clients"
  | stopLogShipping => "stop_log_shipping"
  | stopHttpListener => "stop_http_listener"

def ofIndex? (index : Nat) : Option Stage := all[index]?

def rangeMessage (index : Nat) : String :=
  "shutdown stage " ++ toString index ++ " out of range 0-8"

/-- Whether the stage runs inside the record of the stop. -/
def isRecorded (s : Stage) : Bool := s.index ≤ releaseClients.index

theorem ofIndex?_index (s : Stage) : ofIndex? s.index = some s := by
  cases s <;> rfl

end Stage

/-- The least time that a hook is given, in milliseconds. -/
def minBudget : Nat := 1000

/-- The time of a drain if nothing else is configured, in milliseconds. -/
def defaultTimeout : Nat := 25000

/-- What is left until the deadline, but never less than the least budget. -/
def budget (deadline now : Nat) : Nat := max (deadline - now) minBudget

end Logbook.Shutdown
