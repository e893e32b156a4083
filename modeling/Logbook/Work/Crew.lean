import Logbook.Work.Pool

/-!
# Workers in line

The workers of a pool that have no job stand in line for the queue. The first of them waits at the
queue; it takes the job in front, or leaves if none will come, and lets the next one move up.
-/

namespace Logbook.Work

structure Crew (α : Type) where
  pool : Pool α
  /-- The workers without a job, in the order in which they came. -/
  line : List Nat

/-- What a worker in line does when it looks at the queue. -/
inductive Turn (α : Type) where
  | stays
  | takes (job : α)
  | leaves

namespace Crew

variable {α : Type}

def join (worker : Nat) (c : Crew α) : Crew α := { c with line := c.line ++ [worker] }

/-- A worker in line looks at the queue, if it is the first. -/
def turn (worker : Nat) (c : Crew α) : Turn α × Crew α :=
  if c.line.head? ≠ some worker then (.stays, c)
  else
    match c.pool.take? with
    | some (job, pool) => (.takes job, ⟨pool, c.line.tail⟩)
    | none =>
      if c.pool.mayLeave then (.leaves, ⟨c.pool.leave, c.line.tail⟩) else (.stays, c)

end Crew

end Logbook.Work
