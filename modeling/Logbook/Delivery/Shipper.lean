import Logbook.Diagnostic

/-!
# Shipping lines

A shipper writes lines to a writer in the background, in order, each followed by a newline. It takes
lines until it is stopped; then its worker writes what is queued, flushes the writer and ends. A
line that a shipper cannot take goes to the diagnostics instead. The worker makes one move at a
time: it takes a line, makes one call of the writer, or flushes.
-/

namespace Logbook.Delivery

inductive Call where
  /-- The number of bytes that were accepted; it is a failure to accept none. -/
  | accepts (bytes : Nat)
  | fails (message : String)
  | panics
  deriving DecidableEq, Repr

/-- A writer answers its calls, which are counted from one, for a number of bytes on offer. -/
structure Writer where
  call : Nat → Nat → Call
  flush : Except String Unit

inductive Worker where
  /-- Waits for a line. -/
  | idle
  /-- Has the rest of a line to write. -/
  | writing (rest : List UInt8)
  /-- Has flushed the writer and is gone. -/
  | ended
  /-- Went down with a panic of the writer. -/
  | crashed
  deriving DecidableEq, Repr

structure Shipper where
  accepting : Bool
  queue : List String
  worker : Worker
  /-- The calls of the writer so far. -/
  calls : Nat
  written : List UInt8
  /-- Whether somebody has begun to wait for the worker. -/
  awaited : Bool

namespace Shipper

/-- More time for the shipper than a hook's budget, in milliseconds. -/
def flushGrace : Nat := 2000

def new : Shipper := ⟨true, [], .idle, 0, [], false⟩

def isOver (s : Shipper) : Bool := s.worker = .ended ∨ s.worker = .crashed

/-- Takes a line into the queue; a shipper that is stopped or whose worker is gone does not. -/
def emit (line : String) (s : Shipper) : Option Shipper :=
  if s.accepting && !s.isOver then some { s with queue := s.queue ++ [line] } else none

def stop (s : Shipper) : Shipper := { s with accepting := false }

/-- Somebody stops the shipper, and waits for its worker if nobody has begun to. -/
def halt (s : Shipper) : Bool × Shipper := (!s.awaited, { s.stop with awaited := true })

/-- What one who waits for the worker sees: it is over, or it is not and the time has come. -/
def look (due now : Nat) (s : Shipper) : Option Bool :=
  if s.isOver then some true else if due ≤ now then some false else none

theorem look_of_due {due now : Nat} (h : due ≤ now) (s : Shipper) :
    ∃ result, s.look due now = some result := by
  rw [look, if_pos h]
  cases s.isOver <;> exact ⟨_, rfl⟩

theorem isOver_of_look {due now : Nat} {s : Shipper} (h : s.look due now = some true) :
    s.isOver = true := by
  rw [look] at h
  split at h
  · assumption
  · split at h <;> cases h

/-- The bytes of a line on its way to the writer. -/
def frame (line : String) : List UInt8 := line.toUTF8.data.toList ++ [10]

/-- The worker takes the line in front. -/
def pick? (s : Shipper) : Option Shipper :=
  match s.worker, s.queue with
  | .idle, line :: queue => some { s with queue := queue, worker := .writing (frame line) }
  | _, _ => none

def giveUp (message : String) (s : Shipper) : Shipper × List Diagnostic :=
  ({ s with worker := .idle }, [.warning "Failed to ship action log" [("error", message)]])

/-- The worker makes one call with the rest of its line. A line that fails is given up. -/
def write (writer : Writer) (s : Shipper) : Shipper × List Diagnostic :=
  match s.worker with
  | .writing rest =>
    let s := { s with calls := s.calls + 1 }
    match writer.call s.calls rest.length with
    | .accepts 0 => s.giveUp "write zero"
    | .accepts n =>
      let left := rest.drop n
      ({ s with
          written := s.written ++ rest.take n
          worker := if left.isEmpty then .idle else .writing left }, [])
    | .fails message => s.giveUp message
    | .panics => ({ s with worker := .crashed, queue := [] }, [])
  | _ => (s, [])

/-- Whether nothing is left to write and nothing more will come. -/
def mayFlush (s : Shipper) : Bool := s.worker = .idle && s.queue.isEmpty && !s.accepting

def flush (writer : Writer) (s : Shipper) : Shipper × List Diagnostic :=
  ({ s with worker := .ended },
    match writer.flush with
    | .ok () => []
    | .error message => [.warning "Failed to flush action logs" [("error", message)]])

/-- What is reported by the one who waited for the worker, when the worker is over or when it is
not in time. -/
def stopNotice (budget : Nat) (s : Shipper) : List Diagnostic :=
  match s.worker with
  | .ended => []
  | .crashed => [.error "Log shipper task failed" []]
  | _ => [.warning "Log shipper did not flush in time" [("budget_ms", toString budget)]]

end Shipper

end Logbook.Delivery
