import Logbook.Config.Schema
import Logbook.Net.Address
import Logbook.Text.Blank

/-!
# Validation

What a configuration must satisfy beyond the types of its settings. `violations` lists every rule
that is broken, in a fixed order.
-/

namespace Logbook.Config

structure Violation where
  /-- The path of the setting, with dots. -/
  field : String
  message : String
  deriving DecidableEq, Repr

def Violation.text (v : Violation) : String := v.field ++ ": " ++ v.message

def violationIf (condition : Bool) (field message : String) : List Violation :=
  if condition then [⟨field, message⟩] else []

/-- The blank names of a list, by their places. -/
def blankNames (names : List String) : List Violation :=
  names.zipIdx.flatMap fun (name, i) =>
    violationIf (Blank.isBlankText name) ("trace.masked_fields[" ++ toString i ++ "]")
      "must not be empty"

def badAddress (field address : String) : List Violation :=
  violationIf (Net.Endpoint.read? address).isNone field
    ("invalid socket address '" ++ address ++ "'")

def violations (c : Config) : List Violation :=
  violationIf (c.shutdown.timeoutSecs = 0) "shutdown.timeout_secs" "must be at least 1" ++
  violationIf (c.shutdown.delaySecs = some 0) "shutdown.delay_secs" "must be at least 1 when set" ++
  violationIf (c.executor.poolSize = 0) "executor.pool_size" "must be at least 1" ++
  blankNames c.trace.maskedFields ++
  badAddress "http.bind_address" c.http.bindAddress ++
  if c.observability.metricsEnabled then
    badAddress "observability.metrics_address" c.observability.metricsAddress
  else []

end Logbook.Config
