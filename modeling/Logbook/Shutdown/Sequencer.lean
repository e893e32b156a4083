import Logbook.Record.Line
import Logbook.Shutdown.Stage

/-!
# Drains

A sequencer holds the hooks of the nine stages and the two flags of a drain. A drain sets the first
flag, waits for the configured delay, sets the second flag and fixes its deadline. Then it goes
through the stages: of each it takes the hooks registered so far and calls them one at a time, each
with the budget that is left. Stages up to the release of the clients write into the record of the
stop, which is emitted before the log shipping stops. `Drain.step` makes one move of a drain.
-/

namespace Logbook.Shutdown

structure Flags where
  /-- A drain has begun. -/
  shutdown : Bool
  /-- The delay is over. -/
  afterDelay : Bool
  deriving DecidableEq, Repr

variable {η : Type}

structure Sequencer (η : Type) where
  /-- The hooks that no drain has taken, in the order of their registration. -/
  hooks : Stage → List η
  flags : Flags
  /-- Milliseconds from the end of the delay to the deadline. -/
  timeout : Nat
  /-- Milliseconds before the first stage. -/
  delay : Option Nat

namespace Sequencer

def new (timeout : Nat) (delay : Option Nat) : Sequencer η :=
  ⟨fun _ => [], ⟨false, false⟩, timeout, delay⟩

def ofSeconds (timeout : Nat) (delay : Option Nat) : Sequencer η :=
  new (timeout * 1000) (delay.map (· * 1000))

def add (stage : Stage) (hook : η) (s : Sequencer η) : Sequencer η :=
  { s with hooks := fun k => if k = stage then s.hooks k ++ [hook] else s.hooks k }

def addAll (hooks : List (Stage × η)) (s : Sequencer η) : Sequencer η :=
  hooks.foldl (fun s (stage, hook) => s.add stage hook) s

/-- Takes the hooks of a stage. -/
def take (stage : Stage) (s : Sequencer η) : List η × Sequencer η :=
  (s.hooks stage, { s with hooks := fun k => if k = stage then [] else s.hooks k })

def hookCount (stage : Stage) (s : Sequencer η) : Nat := (s.hooks stage).length

def announce (s : Sequencer η) : Sequencer η :=
  { s with flags := { s.flags with shutdown := true } }

def passDelay (s : Sequencer η) : Sequencer η :=
  { s with flags := { s.flags with afterDelay := true } }

end Sequencer

/-- Where the hooks of a drain write: into the record of the stop, and after it nowhere. -/
inductive Carrier where
  | record (r : Record)
  | detached (s : Trace.Scope)

namespace Carrier

def scope : Carrier → Trace.Scope
  | record r => r.scope
  | detached s => s

def modify (f : Trace.Scope → Trace.Scope) : Carrier → Carrier
  | record r => record { r with scope := f r.scope }
  | detached s => detached (f s)

def setStat (key : String) (x : Float) (c : Carrier) : Carrier := c.modify (·.setStat key x)

end Carrier

structure OpenStage (η : Type) where
  stage : Stage
  /-- The time at which it was opened. -/
  opened : Nat
  /-- How many hooks were taken. -/
  count : Nat
  /-- The hooks that have not been called. -/
  rest : List η

structure Drain (η : Type) where
  deadline : Nat
  /-- The stages that have not been opened. -/
  upcoming : List Stage
  current : Option (OpenStage η)
  carrier : Carrier

def stopAction : String := "app:stop"

def stopType : String := "app"

/-- The end of time, in milliseconds: a moment holds a number of seconds below `2 ^ 63`. -/
def endOfTime : Nat := Nat.pow 2 63 * 1000

/-- The moment a span after another one, if there is such a moment. -/
def later? (now span : Nat) : Option Nat :=
  if now + span < endOfTime then some (now + span) else none

def millisStat (n : Nat) : Float := Float.ofNat n

namespace Drain

/-- Begins the stages of a drain when the delay is over; `none` if the deadline is no moment. -/
def start? (masked : Trace.Mask.Registry) (now timeout : Nat) (id : String) (moment : Moment) :
    Option (Drain η) :=
  (later? now timeout).map fun deadline =>
    let r := Record.start masked id moment stopAction stopType
    ⟨deadline, Stage.all, none, .record (r.setStat "shutdown_timeout_ms" (millisStat timeout))⟩

inductive Move (η : Type) where
  /-- A hook is called with its budget. -/
  | call (hook : η) (budget : Nat)
  /-- The hooks of a stage have been taken. -/
  | opened (stage : Stage)
  /-- The last hook of a stage has returned; the number of its hooks. -/
  | closed (stage : Stage) (hooks : Nat)
  /-- The record of the stop has been emitted. -/
  | emitted (emission : Option Record.Emission)
  | finished

def statKey (stage : Stage) (what : String) : String :=
  "shutdown_stage_" ++ toString stage.index ++ "_" ++ what

/-- Closes a stage: the scope learns how many hooks it called and how long they took. -/
def closeStage (now : Nat) (s : OpenStage η) (d : Drain η) : Drain η :=
  { d with
    current := none
    carrier := (d.carrier.setStat (statKey s.stage "hooks") (millisStat s.count)).setStat
      (statKey s.stage "ms") (millisStat (now - s.opened)) }

/-- Opens a stage; one without hooks is passed over. -/
def openStage (now : Nat) (stage : Stage) (upcoming : List Stage) (d : Drain η)
    (s : Sequencer η) : Drain η × Sequencer η :=
  let (hooks, s) := s.take stage
  let current := if hooks.isEmpty then none else some ⟨stage, now, hooks.length, hooks⟩
  ({ d with upcoming := upcoming, current := current }, s)

def step (masked : Trace.Mask.Registry) (now : Nat) (moment : Moment) (d : Drain η)
    (s : Sequencer η) : Move η × Drain η × Sequencer η :=
  match d.current with
  | some entered =>
    match entered.rest with
    | hook :: rest =>
      (.call hook (budget d.deadline now),
        { d with current := some { entered with rest := rest } }, s)
    | [] => (.closed entered.stage entered.count, d.closeStage now entered, s)
  | none =>
    match d.upcoming with
    | [] => (.finished, d, s)
    | stage :: upcoming =>
      match stage.isRecorded, d.carrier with
      | false, .record r =>
        let (emission, _) := r.emit masked moment
        (.emitted emission, { d with carrier := .detached .detached }, s)
      | _, _ =>
        let (d, s) := d.openStage now stage upcoming s
        (.opened stage, d, s)

end Drain

end Logbook.Shutdown
