import Logbook.Waiters

/-!
# Requests in flight

The number of requests that are being handled, and those who wait for it to become zero. A wait ends
with success at a moment when no request is in flight, and without success at its deadline.
-/

namespace Logbook.Http

structure InFlight (ι : Type) where
  count : Nat
  waiters : Waiters ι

namespace InFlight

variable {ι : Type} [DecidableEq ι]

def empty : InFlight ι := ⟨0, .none⟩

def enter (f : InFlight ι) : InFlight ι := { f with count := f.count + 1 }

/-- A request leaves; the last one lets go those who wait. -/
def leave (f : InFlight ι) : List ι × InFlight ι :=
  let count := f.count - 1
  if count = 0 then
    let (released, waiters) := f.waiters.ring
    (released, ⟨count, waiters⟩)
  else ([], { f with count := count })

omit [DecidableEq ι] in
@[simp]
theorem count_leave (f : InFlight ι) : f.leave.2.count = f.count - 1 := by
  simp only [leave]
  split <;> rfl

/-- A waiter looks: it learns how its wait ended, or goes on waiting. One that is not listed has
just come or has been let go, and lists itself before it looks at the number. -/
def look (i : ι) (deadline now : Nat) (f : InFlight ι) : Option Bool × InFlight ι :=
  if !f.waiters.isListed i && f.count = 0 then (some true, f)
  else if deadline ≤ now then (some (f.count = 0), { f with waiters := f.waiters.strike i })
  else (none, { f with waiters := f.waiters.enlist i })

theorem count_look {i : ι} {deadline now : Nat} {f f' : InFlight ι} {result : Option Bool}
    (h : f.look i deadline now = (result, f')) : f'.count = f.count := by
  unfold look at h
  split at h
  · cases h; rfl
  · split at h <;> cases h <;> rfl

/-- A wait ends with success only when no request is in flight. -/
theorem count_of_look {i : ι} {deadline now : Nat} {f f' : InFlight ι}
    (h : f.look i deadline now = (some true, f')) : f.count = 0 := by
  unfold look at h
  split at h
  case isTrue hidle => exact of_decide_eq_true (Bool.and_eq_true .. ▸ hidle).2
  case isFalse =>
    split at h
    · exact of_decide_eq_true (Option.some.inj (congrArg Prod.fst h))
    · cases h

theorem look_of_due {deadline now : Nat} (h : deadline ≤ now) (i : ι) (f : InFlight ι) :
    ∃ result, (f.look i deadline now).1 = some result := by
  rw [look, if_pos h]
  split <;> exact ⟨_, rfl⟩

/-- What is told when requests are still in flight at the deadline. -/
def overdue (f : InFlight ι) (budget : Nat) : String × List (String × String) :=
  ("Requests still in flight at the deadline",
    [("in_flight", toString f.count), ("budget_ms", toString budget)])

end InFlight

end Logbook.Http
