import Logbook.Rehearsal.Orders
import Logbook.Rehearsal.Shipping

/-!
# The schedule of a rehearsal

One fiber runs at a time, until it waits. The others that can go on run in the order in which they
were woken; the script runs when it has been woken and the queue is empty, or after a full round of
other fibers. When nothing can go on, the clock moves to the next timer. A rehearsal ends when its
script has no more orders and the others wait, or when nothing will ever go on.
-/

namespace Logbook.Rehearsal

/-- How many other fibers run before the script is looked at. -/
def roundLength : Nat := 61

/-- The stage of a rehearsal: its world, the fiber that runs, and how many others have run since the
script was looked at. -/
structure Stage where
  world : World
  running : Option (FiberId × Activity)
  round : Nat

namespace World

/-- One move of the script: it follows the next order or goes on with the last one. -/
def moveScript (orders : List Order) (doing : Doing) (answers : List (Nat × Answer)) (w : World) :
    Next Activity × World :=
  let proceed (orders : List Order) (p : Progress) (w : World) : Activity :=
    match p with
    | .answer a => .script orders .nothing ((w.now, a) :: answers)
    | .busy doing => .script orders doing answers
  match doing with
  | .nothing =>
    match orders with
    | [] => (.wait (.script [] .leaving answers), w)
    | order :: orders =>
      let (p, w) := w.follow order
      (.go (proceed orders p w), w)
  | _ =>
    let (n, w) := w.moveDoing doing
    (n.map fun p => proceed orders p w, w)

def move (fiber : FiberId) (a : Activity) (w : World) : Next Activity × World :=
  match a with
  | .script orders doing answers => w.moveScript orders doing answers
  | .unit joined run =>
    match w.moveUnit fiber Work.taskType run with
    | (.over, w) => (.over, if joined then w.updateTracker Work.Tracker.leave else w)
    | (n, w) => (n.map (.unit joined), w)
  | .worker pool phase =>
    let (n, w) := w.moveWorker fiber pool phase
    (n.map (.worker pool), w)
  | .request run =>
    match w.moveServing fiber run with
    | (.next n, w) => (n.map .request, w)
    | (.answered r, w) => (.over, w.respond r)
    | (.panicked, w) => (.over, w)
  | .holding slot record millis due key values =>
    let (n, w) := w.moveHolding fiber slot record millis due key values
    (n.map fun due => .holding slot record millis (some due) key values, w)
  | .drain run =>
    match w.moveDrain fiber run with
    | (.next n, w) => (n.map .drain, w)
    | (.finished, w) | (.panicked, w) => (.over, w)
  | .shipping due =>
    let (n, w) := w.moveShipping fiber due
    (n.map .shipping, w)

/-- Whether the script only waits for the others to come to rest. -/
def isSettling (w : World) : Bool :=
  match lookup scriptFiber w.fibers with
  | some (.script _ .settling _) => true
  | _ => false

end World

namespace Stage

def ofScript (s : Script) : Stage := ⟨World.ofScript s, none, roundLength⟩

/-- The answers of the script so far, the last first. -/
def answers (s : Stage) : List (Nat × Answer) :=
  match World.lookup scriptFiber s.world.fibers with
  | some (.script _ _ answers) => answers
  | _ => []

def run (fiber : FiberId) (s : Stage) : Stage :=
  { s with running := (World.lookup fiber s.world.fibers).map fun a => (fiber, a) }

/-- Chooses the fiber that runs next; `none` if nothing will ever go on. -/
def choose (s : Stage) : Option Stage :=
  let w := s.world
  if w.scriptWoken ∧ (w.ready.isEmpty ∨ roundLength ≤ s.round) then
    some ({ s with world := { w with scriptWoken := false }, round := 0 }.run scriptFiber)
  else
    match w.ready with
    | fiber :: ready =>
      let round := if roundLength ≤ s.round then 1 else s.round + 1
      some ({ s with world := { w with ready := ready }, round := round }.run fiber)
    | [] =>
      if w.isSettling then some (s.run scriptFiber)
      else w.skipToTimer.map fun w => { s with world := w, round := roundLength }

def isOver (s : Stage) : Bool :=
  match World.lookup scriptFiber s.world.fibers with
  | some (.script [] .leaving _) => s.world.ready.isEmpty
  | _ => false

/-- One move of a rehearsal; `none` if it is over. -/
def move (s : Stage) : Option Stage :=
  match s.running with
  | none => if s.isOver then none else s.choose
  | some (fiber, a) =>
    match s.world.move fiber a with
    | (.go a, w) => some { s with world := w, running := some (fiber, a) }
    | (.wait a, w) =>
      some { s with world := { w with fibers := World.assign fiber a w.fibers }, running := none }
    | (.over, w) =>
      some { s with world := { w with fibers := w.fibers.filter (·.1 ≠ fiber) }, running := none }

def play : Nat → Stage → Stage
  | 0, s => s
  | moves + 1, s =>
    match s.move with
    | none => s
    | some s => play moves s

end Stage

/-- More moves than a script can ask for. -/
def moveLimit : Nat := Nat.pow 2 40

def play (s : Script) : Stage := Stage.play moveLimit (Stage.ofScript s)

end Logbook.Rehearsal
