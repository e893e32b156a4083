import Logbook.Shutdown.Stage

/-!
# Standard hooks

The hooks that the parts of the service register for a drain, with their stages. Pools are told
apart by references of any kind.
-/

namespace Logbook.Shutdown

inductive Standard (π : Type) where
  | closeTracker
  | awaitTracker
  | closePool (pool : π)
  | awaitPool (pool : π)
  | refuseRequests
  | awaitRequests
  | stopListener
  | stopShipping
  deriving DecidableEq, Repr

namespace Standard

variable {π : Type}

/-- The tracker is closed, then its units are awaited. -/
def tracker : List (Stage × Standard π) :=
  [(.stopExecutors, closeTracker), (.awaitExecutors, awaitTracker)]

/-- The pool is closed, then its workers are awaited. -/
def pool (p : π) : List (Stage × Standard π) :=
  [(.stopExecutors, closePool p), (.awaitExecutors, awaitPool p)]

/-- Requests are refused and awaited first, the listener stops last. -/
def server : List (Stage × Standard π) :=
  [(.stopAcceptingExternal, refuseRequests), (.awaitExternal, awaitRequests),
    (.stopHttpListener, stopListener)]

def shipper : List (Stage × Standard π) := [(.stopLogShipping, stopShipping)]

end Standard

end Logbook.Shutdown
