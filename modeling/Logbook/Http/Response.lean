import Logbook.Failure
import Logbook.Json

/-!
# Responses

A response has a status and a text. One that was made from a failure also reports the failure, so
that the record of the request can name it.
-/

namespace Logbook.Http

structure Response where
  status : Nat
  body : String
  failure : Option Failure
  deriving DecidableEq, Repr

namespace Response

def plain (status : Nat) (body : String) : Response := ⟨status, body, none⟩

def errorBody (code message : String) : String :=
  (Json.object [("error_code", .string code), ("message", .string message)]).text

/-- A status outside the three-digit numbers is answered as an internal error. -/
def statusOf (f : Failure) : Nat :=
  if 100 ≤ f.status ∧ f.status ≤ 999 then f.status else Failure.internalStatus

def ofFailure (f : Failure) : Response := ⟨statusOf f, errorBody f.code f.publicMessage, some f⟩

def panicked : Response :=
  plain Failure.internalStatus (errorBody Failure.internalCode Failure.internalMessage)

end Response

end Logbook.Http
