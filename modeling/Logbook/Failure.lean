/-!
# Failures

What can end a unit of work abnormally: an application error, which carries its own code, status
and the place that raised it; any other error, of which a message is left; and a panic whose payload
was no error. Failures without a code of their own are internal errors.
-/

namespace Logbook

structure AppError where
  code : String
  status : Nat
  message : String
  location : String
  deriving DecidableEq, Repr

inductive Failure where
  | app (error : AppError)
  | generic (message : String)
  | unknown (message : String)
  deriving DecidableEq, Repr

inductive Payload where
  | text (message : String)
  | app (error : AppError)
  | other
  deriving DecidableEq, Repr

namespace AppError

def notFound (message location : String) : AppError := ⟨"NOT_FOUND", 404, message, location⟩

def badRequest (message location : String) : AppError := ⟨"BAD_REQUEST", 400, message, location⟩

end AppError

namespace Failure

def internalCode : String := "INTERNAL_ERROR"

def internalStatus : Nat := 500

/-- What the outside is told of a failure that is no application error. -/
def internalMessage : String := "internal error"

/-- An application error keeps its shape through a panic; a text becomes the message. -/
def ofPayload : Payload → Failure
  | .text message => .unknown message
  | .app error => .app error
  | .other => .unknown "panic with a non-string payload"

def code : Failure → String
  | .app error => error.code
  | .generic _ | .unknown _ => internalCode

def status : Failure → Nat
  | .app error => error.status
  | .generic _ | .unknown _ => internalStatus

def message : Failure → String
  | .app error => error.message
  | .generic message | .unknown message => message

/-- Where the failure was raised, known of application errors only. -/
def location? : Failure → Option String
  | .app error => some error.location
  | .generic _ | .unknown _ => none

def publicMessage : Failure → String
  | .app error => error.message
  | .generic _ | .unknown _ => internalMessage

end Failure

end Logbook
