/-!
# Outcomes

The verdict on a unit of work, by severity. A verdict only ever rises.
-/

namespace Logbook

inductive Outcome where
  | ok
  | warn
  | error
  deriving DecidableEq, Repr

namespace Outcome

instance : Inhabited Outcome := ⟨ok⟩

def severity : Outcome → Nat
  | ok => 0
  | warn => 1
  | error => 2

def name : Outcome → String
  | ok => "ok"
  | warn => "warn"
  | error => "error"

/-- The verdict with this name; any other name means no harm. -/
def ofName (name : String) : Outcome :=
  if name = "warn" then warn else if name = "error" then error else ok

/-- The more severe of two verdicts. -/
def worst (a b : Outcome) : Outcome := if a.severity ≤ b.severity then b else a

theorem severity_worst (a b : Outcome) : (a.worst b).severity = max a.severity b.severity := by
  cases a <;> cases b <;> rfl

theorem worst_error (o : Outcome) : o.worst .error = .error := by cases o <;> rfl

def sort (outcomes : List Outcome) : List Outcome :=
  outcomes.mergeSort fun a b => a.severity ≤ b.severity

/-- The most severe of a list of verdicts. -/
def worstOf? : List Outcome → Option Outcome
  | [] => none
  | o :: outcomes => some (outcomes.foldl worst o)

/-- The verdict on a response: server errors are errors, client errors warn. -/
def ofStatus (status : Nat) : Outcome :=
  if 500 ≤ status ∧ status < 600 then error
  else if 400 ≤ status ∧ status < 500 then warn
  else ok

end Outcome

end Logbook
