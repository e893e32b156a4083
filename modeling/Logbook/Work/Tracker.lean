/-!
# Trackers

A tracker counts the units of work that were joined to it. Once it is closed, it is drained when
none of them is left; a closed tracker still takes new units.
-/

namespace Logbook.Work

structure Tracker where
  /-- Units that were joined and have not left. -/
  count : Nat
  closed : Bool
  deriving DecidableEq, Repr

namespace Tracker

def empty : Tracker := ⟨0, false⟩

def isDrained (t : Tracker) : Bool := t.closed && t.count = 0

def join (t : Tracker) : Tracker := { t with count := t.count + 1 }

def leave (t : Tracker) : Tracker := { t with count := t.count - 1 }

def close (t : Tracker) : Tracker := { t with closed := true }

/-- Whether a change lets those go who wait for the tracker to be drained. -/
def becomesDrained (before after : Tracker) : Bool := !before.isDrained && after.isDrained

/-- What one who waits for a tracker finds: it is drained, or has been since the wait began; or the
time is up; or neither yet. -/
def awaited (released : Bool) (due now : Nat) (t : Tracker) : Option Bool :=
  if t.isDrained || released then some true else if due ≤ now then some false else none

theorem awaited_of_due {due now : Nat} (h : due ≤ now) (released : Bool) (t : Tracker) :
    ∃ result, t.awaited released due now = some result := by
  rw [awaited, if_pos h]
  split <;> exact ⟨_, rfl⟩

/-- What is told when the units of a tracker do not leave in time. -/
def overdue (t : Tracker) (budget : Nat) : String × List (String × String) :=
  ("Joined tasks did not finish before the deadline",
    [("pending", toString t.count), ("budget_ms", toString budget)])

end Tracker

end Logbook.Work
