import Logbook.Diagnostic

/-!
# The listener

The task that listens for requests. It is told to stop and then comes to its end when the last of
its connections has; the first who stops it after it was started waits for that, for a limited time.
-/

namespace Logbook.Http

/-- How the task of a listener ended. -/
inductive Stopped where
  | closed
  | failed (message : String)
  | aborted (message : String)
  deriving DecidableEq, Repr

structure Listener where
  /-- It has been told to stop. -/
  stopping : Bool
  /-- It was started, and nobody has waited for its task. -/
  serving : Bool
  /-- How its task ended, if it has. -/
  ended : Option Stopped
  deriving DecidableEq, Repr

namespace Listener

def idle : Listener := ⟨false, false, none⟩

/-- Stops the listener; tells whether its task is to be awaited. -/
def stop (l : Listener) : Bool × Listener :=
  (l.serving, { l with stopping := true, serving := false })

/-- What one who waits for the task finds: it has ended, or the time is up, or neither yet. -/
def awaited (due now : Nat) (l : Listener) : Option Bool :=
  if l.ended.isSome then some true else if due ≤ now then some false else none

theorem awaited_of_due {due now : Nat} (h : due ≤ now) (l : Listener) :
    ∃ result, l.awaited due now = some result := by
  rw [awaited, if_pos h]
  split <;> exact ⟨_, rfl⟩

/-- What is reported by the one who waited for the task, when it has ended or is not in time. -/
def stopNotice (l : Listener) : List Diagnostic :=
  match l.ended with
  | some .closed => []
  | some (.failed message) => [.error "HTTP server failed" [("error", message)]]
  | some (.aborted message) => [.error "HTTP server task aborted" [("error", message)]]
  | none => [.warning "HTTP server did not stop before the deadline" []]

end Listener

end Logbook.Http
