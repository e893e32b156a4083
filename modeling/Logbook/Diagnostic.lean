/-!
# Diagnostics

Events that the service reports about itself, besides the records of its work.
-/

namespace Logbook

inductive Diagnostic.Level where
  | info
  | warn
  | error
  deriving DecidableEq, Repr

def Diagnostic.Level.name : Diagnostic.Level → String
  | .info => "INFO"
  | .warn => "WARN"
  | .error => "ERROR"

structure Diagnostic where
  level : Diagnostic.Level
  message : String
  /-- Names and values, in the order in which they are shown. -/
  fields : List (String × String)
  deriving DecidableEq, Repr

namespace Diagnostic

def warning (message : String) (fields : List (String × String)) : Diagnostic :=
  ⟨.warn, message, fields⟩

def error (message : String) (fields : List (String × String)) : Diagnostic :=
  ⟨.error, message, fields⟩

/-- The level, the message, then the fields as `name=value`. -/
def text (d : Diagnostic) : String :=
  String.intercalate " "
    (d.level.name :: d.message :: d.fields.map fun (name, value) => name ++ "=" ++ value)

end Diagnostic

end Logbook
