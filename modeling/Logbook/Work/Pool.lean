/-!
# Pools of workers

A pool runs jobs on a fixed number of workers, at least one. Jobs wait in a queue in the order of
their submission. A pool that is closed refuses further jobs, and its workers leave when the queue
is empty. Any worker may take the job in front at any time; the counters are kept step by step.
-/

namespace Logbook.Work

structure Pool (α : Type) where
  name : String
  size : Nat
  /-- Jobs that were accepted and not yet taken. -/
  queue : List α
  /-- The number of jobs in the queue, as it is shown. -/
  waiting : Nat
  /-- Jobs that were taken and have not finished. -/
  running : Nat
  closed : Bool
  /-- Workers that have left. -/
  left : Nat

structure Refusal where
  pool : String
  deriving DecidableEq, Repr

def Refusal.message (r : Refusal) : String := "executor '" ++ r.pool ++ "' is shut down"

structure Load where
  running : Nat
  free : Nat
  waiting : Nat
  deriving DecidableEq, Repr

namespace Pool

variable {α : Type}

/-- A pool has one worker at least. -/
def ofSize (name : String) (size : Nat) : Pool α where
  name := name
  size := max size 1
  queue := []
  waiting := 0
  running := 0
  closed := false
  left := 0

def free (p : Pool α) : Nat := p.size - p.running

def load (p : Pool α) : Load := ⟨p.running, p.free, p.waiting⟩

/-- Puts a job at the end of the queue, unless the pool is closed. -/
def submit (job : α) (p : Pool α) : Except Refusal (Pool α) :=
  if p.closed then .error ⟨p.name⟩
  else .ok { p with queue := p.queue ++ [job], waiting := p.waiting + 1 }

def take? (p : Pool α) : Option (α × Pool α) :=
  match p.queue with
  | [] => none
  | job :: queue =>
    some (job, { p with queue := queue, waiting := p.waiting - 1, running := p.running + 1 })

def finish (p : Pool α) : Pool α := { p with running := p.running - 1 }

def close (p : Pool α) : Pool α := { p with closed := true }

def mayLeave (p : Pool α) : Bool := p.closed && p.queue.isEmpty

def leave (p : Pool α) : Pool α := { p with left := p.left + 1 }

/-- Every worker has left. -/
def isTerminated (p : Pool α) : Bool := p.size ≤ p.left

/-- What one who waits for the workers to leave finds: they have left, or the time is up, or neither
yet. -/
def awaited (due now : Nat) (p : Pool α) : Option Bool :=
  if p.isTerminated then some true else if due ≤ now then some false else none

theorem awaited_of_due {due now : Nat} (h : due ≤ now) (p : Pool α) :
    ∃ result, p.awaited due now = some result := by
  rw [awaited, if_pos h]
  split <;> exact ⟨_, rfl⟩

def overdue (p : Pool α) : String × List (String × String) :=
  ("Executor did not terminate before the deadline",
    [("executor", p.name), ("running", toString p.running), ("waiting", toString p.waiting)])

end Pool

end Logbook.Work
