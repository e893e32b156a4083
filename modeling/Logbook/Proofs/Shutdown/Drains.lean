import Logbook.Proofs.Lists
import Logbook.Shutdown.Sequencer

/-! The drains of a sequencer as a transition system. Any number of runs go on at the same time,
each up to its next wait, and anybody may register hooks at any time. What the rest of the process
does, and what hooks do when they are called, is left to the surroundings. Time goes by only while
every run waits: for the end of its delay, or for the hook that it called. -/

namespace Logbook.Shutdown

/-- A hook with its stage and its place in the order of all registrations. -/
structure Entry (η : Type) where
  number : Nat
  stage : Stage
  hook : η

/-- A hook that was called: its budget, and the times of the call and of the return. -/
structure Call (η : Type) where
  entry : Entry η
  budget : Nat
  called : Nat
  returned : Option Nat

/-- A stage that a run has opened: how many hooks had been registered until then, on any stage, and
which of its own it took. -/
structure Opening (η : Type) where
  stage : Stage
  before : Nat
  taken : List (Entry η)

/-- What goes on around the drains of a sequencer. Each part of it finds the time; hooks of one kind
may behave differently each time. -/
structure Surroundings (η : Type) where
  State : Type
  /-- A hook that was called and has not returned. -/
  Active : Type
  /-- The rest of the process moves on, under the flags that it sees. -/
  works : Flags → Nat → State → State → Prop
  /-- A hook is called with its budget. -/
  calls : η → Nat → Nat → State → Active → State → Prop
  /-- A hook moves on and does not return yet. -/
  proceeds : η → Nat → Active → State → Active → State → Prop
  returns : η → Nat → Active → State → State → Prop
  panics : η → Nat → Active → State → State → Prop
  /-- A hook lets time go by. -/
  waits : η → Nat → Active → State → Prop
  /-- Nothing keeps a hook from being called. -/
  exists_calls : ∀ hook budget now state, ∃ active state', calls hook budget now state active state'

variable {η : Type}

/-- The hooks of the open stage that have not been called. -/
def Drain.rest (d : Drain η) : List η :=
  match d.current with
  | some entered => entered.rest
  | none => []

/-- Where a run stands. -/
inductive Course (P : Surroundings η) where
  | delaying (due : Nat)
  /-- It makes its next move at once. -/
  | moving (drain : Drain (Entry η))
  /-- It waits for the hook that it called last. -/
  | calling (drain : Drain (Entry η)) (active : P.Active)
  | finished (time : Nat)
  /-- A hook panicked, or the deadline was no moment; the hooks it had taken and not called. -/
  | failed (dropped : List (Entry η))

structure Run (P : Surroundings η) where
  began : Nat
  course : Course P
  opened : List (Opening η)
  calls : List (Call η)
  /-- How many moves it has made. -/
  moves : Nat

/-- All but the runs. -/
structure Scene (P : Surroundings η) where
  sequencer : Sequencer (Entry η)
  /-- All hooks that were ever registered, in this order. -/
  registered : List (Entry η)
  now : Nat
  state : P.State

structure Drains (P : Surroundings η) extends Scene P where
  runs : List (Run P)

variable {P : Surroundings η}

/-- Hooks that the run has taken and that it has not called. -/
def Course.rest : Course P → List (Entry η)
  | .delaying _ | .finished _ => []
  | .moving d | .calling d _ => d.rest
  | .failed dropped => dropped

namespace Run

/-- All hooks that the run took, in this order. -/
def taken (r : Run P) : List (Entry η) := r.opened.flatMap Opening.taken

def IsOver (r : Run P) : Prop :=
  (∃ time, r.course = .finished time) ∨ ∃ dropped, r.course = .failed dropped

/-- The run lets time go by: it waits, or is over. -/
inductive Waits (c : Scene P) (r : Run P) : Prop where
  | delaying {due : Nat} (course : r.course = .delaying due) (h : c.now < due)
  | calling {d : Drain (Entry η)} {active : P.Active} {calls : List (Call η)} {k : Call η}
      (course : r.course = .calling d active) (calls : r.calls = calls ++ [k])
      (h : P.waits k.entry.hook c.now active c.state)
  | ended (h : r.IsOver)

/-- A move of a run, with what it changes in the scene. The masked names and the clocks are those
that it finds. -/
inductive Advance (c : Scene P) (r : Run P) : Scene P → Run P → Prop where
  /-- The delay is over, and the deadline is fixed. -/
  | start {due : Nat} {d : Drain (Entry η)} (masked : Trace.Mask.Registry) (id : String)
      (moment : Moment) (course : r.course = .delaying due) (hdue : due ≤ c.now)
      (h : Drain.start? masked c.now c.sequencer.timeout id moment = some d) :
      Advance c r { c with sequencer := c.sequencer.passDelay }
        { r with course := .moving d, moves := r.moves + 1 }
  | miss {due : Nat} (masked : Trace.Mask.Registry) (id : String) (moment : Moment)
      (course : r.course = .delaying due) (hdue : due ≤ c.now)
      (h : (Drain.start? masked c.now c.sequencer.timeout id moment : Option (Drain (Entry η))) =
        none) :
      Advance c r { c with sequencer := c.sequencer.passDelay }
        { r with course := .failed [], moves := r.moves + 1 }
  | opens {d d' : Drain (Entry η)} {q : Sequencer (Entry η)} {stage : Stage}
      (masked : Trace.Mask.Registry) (moment : Moment) (course : r.course = .moving d)
      (h : d.step masked c.now moment c.sequencer = (.opened stage, d', q)) :
      Advance c r { c with sequencer := q }
        { r with course := .moving d', moves := r.moves + 1,
                 opened := r.opened ++
                   [⟨stage, c.registered.length, c.sequencer.hooks stage⟩] }
  | calls {d d' : Drain (Entry η)} {q : Sequencer (Entry η)} {e : Entry η} {budget : Nat}
      {active : P.Active} {state : P.State} (masked : Trace.Mask.Registry) (moment : Moment)
      (course : r.course = .moving d)
      (h : d.step masked c.now moment c.sequencer = (.call e budget, d', q))
      (hcall : P.calls e.hook budget c.now c.state active state) :
      Advance c r { c with sequencer := q, state := state }
        { r with course := .calling d' active, moves := r.moves + 1,
                 calls := r.calls ++ [⟨e, budget, c.now, none⟩] }
  /-- The hook writes into its scope, or does something else. -/
  | proceeds {d : Drain (Entry η)} {active active' : P.Active} {state : P.State}
      {calls : List (Call η)} {k : Call η} (f : Trace.Scope → Trace.Scope)
      (course : r.course = .calling d active) (hcalls : r.calls = calls ++ [k])
      (h : P.proceeds k.entry.hook c.now active c.state active' state) :
      Advance c r { c with state := state }
        { r with course := .calling { d with carrier := d.carrier.modify f } active' }
  | returns {d : Drain (Entry η)} {active : P.Active} {state : P.State} {calls : List (Call η)}
      {k : Call η} (course : r.course = .calling d active) (hcalls : r.calls = calls ++ [k])
      (h : P.returns k.entry.hook c.now active c.state state) :
      Advance c r { c with state := state }
        { r with course := .moving d, moves := r.moves + 1,
                 calls := calls ++ [{ k with returned := some c.now }] }
  | panics {d : Drain (Entry η)} {active : P.Active} {state : P.State} {calls : List (Call η)}
      {k : Call η} (course : r.course = .calling d active) (hcalls : r.calls = calls ++ [k])
      (h : P.panics k.entry.hook c.now active c.state state) :
      Advance c r { c with state := state }
        { r with course := .failed d.rest, moves := r.moves + 1 }
  | closes {d d' : Drain (Entry η)} {q : Sequencer (Entry η)} {stage : Stage} {hooks : Nat}
      (masked : Trace.Mask.Registry) (moment : Moment) (course : r.course = .moving d)
      (h : d.step masked c.now moment c.sequencer = (.closed stage hooks, d', q)) :
      Advance c r { c with sequencer := q } { r with course := .moving d', moves := r.moves + 1 }
  | emits {d d' : Drain (Entry η)} {q : Sequencer (Entry η)} {e : Option Record.Emission}
      (masked : Trace.Mask.Registry) (moment : Moment) (course : r.course = .moving d)
      (h : d.step masked c.now moment c.sequencer = (.emitted e, d', q)) :
      Advance c r { c with sequencer := q } { r with course := .moving d', moves := r.moves + 1 }
  | finishes {d d' : Drain (Entry η)} {q : Sequencer (Entry η)} (masked : Trace.Mask.Registry)
      (moment : Moment) (course : r.course = .moving d)
      (h : d.step masked c.now moment c.sequencer = (.finished, d', q)) :
      Advance c r { c with sequencer := q }
        { r with course := .finished c.now, moves := r.moves + 1 }

end Run

namespace Drains

def start (P : Surroundings η) (timeout : Nat) (delay : Option Nat) (state : P.State) :
    Drains P where
  sequencer := .new timeout delay
  registered := []
  now := 0
  state := state
  runs := []

/-- Adds a hook; its number is the number of hooks before it. -/
def register (stage : Stage) (hook : η) (s : Drains P) : Drains P :=
  let e : Entry η := ⟨s.registered.length, stage, hook⟩
  { s with sequencer := s.sequencer.add stage e, registered := s.registered ++ [e] }

/-- A new run: the first flag is set, and its delay begins. -/
def begin (s : Drains P) : Drains P :=
  { s with
    sequencer := s.sequencer.announce
    runs := s.runs ++ [⟨s.now, .delaying (s.now + s.sequencer.delay.getD 0), [], [], 0⟩] }

inductive Step (s : Drains P) : Drains P → Prop where
  | register (stage : Stage) (hook : η) : Step s (s.register stage hook)
  | begin : Step s s.begin
  | works {state : P.State} (h : P.works s.sequencer.flags s.now s.state state) :
      Step s { s with state := state }
  | advance {before after : List (Run P)} {r r' : Run P} {c : Scene P}
      (hruns : s.runs = before ++ r :: after) (h : r.Advance s.toScene c r') :
      Step s ⟨c, before ++ r' :: after⟩
  | tick (h : ∀ r ∈ s.runs, r.Waits s.toScene) : Step s { s with now := s.now + 1 }

inductive Later (s : Drains P) : Drains P → Prop where
  | refl : Later s s
  | step {t u : Drains P} (H : Later s t) (h : Step t u) : Later s u

/-- The only run makes a move. -/
theorem Step.only {s : Drains P} {r r' : Run P} {c : Scene P} (hruns : s.runs = [r])
    (h : r.Advance s.toScene c r') : Step s ⟨c, [r']⟩ :=
  @Step.advance _ _ _ [] [] _ _ _ hruns h

theorem Later.trans {s t u : Drains P} (H : Later s t) (H' : Later t u) : Later s u := by
  induction H' with
  | refl => exact H
  | step _ h ih => exact ih.step h

/-- A state that a sequencer can come to, with a timeout, a delay and surroundings at the start. -/
def Reachable (timeout : Nat) (delay : Option Nat) (state : P.State) (s : Drains P) : Prop :=
  Later (start P timeout delay state) s

/-- What each step keeps is kept. -/
theorem Later.keeps {Q : Drains P → Prop} (hstep : ∀ {s t}, Q s → Step s t → Q t) {s t : Drains P}
    (H : Later s t) (hs : Q s) : Q t := by
  induction H with
  | refl => exact hs
  | step _ h ih => exact hstep ih h

end Drains

namespace Drain

/-- The next move of a drain, by the place where it stands. -/
inductive Next (masked : Trace.Mask.Registry) (now : Nat) (moment : Moment) (d : Drain η)
    (q : Sequencer η) : Move η → Drain η → Sequencer η → Prop where
  | call {entered : OpenStage η} {hook : η} {rest : List η} (current : d.current = some entered)
      (hrest : entered.rest = hook :: rest) :
      Next masked now moment d q (.call hook (budget d.deadline now))
        { d with current := some { entered with rest := rest } } q
  | closed {entered : OpenStage η} (current : d.current = some entered)
      (hrest : entered.rest = []) :
      Next masked now moment d q (.closed entered.stage entered.count) (d.closeStage now entered) q
  | opened {stage : Stage} {later : List Stage} (current : d.current = none)
      (upcoming : d.upcoming = stage :: later)
      (hopen : stage.isRecorded = true ∨ ∃ scope, d.carrier = .detached scope) :
      Next masked now moment d q (.opened stage) (d.openStage now stage later q).1
        (d.openStage now stage later q).2
  | emitted {stage : Stage} {later : List Stage} {r : Record} (current : d.current = none)
      (upcoming : d.upcoming = stage :: later) (hrecorded : stage.isRecorded = false)
      (carrier : d.carrier = .record r) :
      Next masked now moment d q (.emitted (r.emit masked moment).1)
        { d with carrier := .detached .detached } q
  | finished (current : d.current = none) (upcoming : d.upcoming = []) :
      Next masked now moment d q .finished d q

variable {masked : Trace.Mask.Registry} {now : Nat} {moment : Moment} {d d' : Drain η}
  {q q' : Sequencer η} {m : Drain.Move η}

theorem start?_of_lt {timeout : Nat} (h : now + timeout < endOfTime) (id : String) :
    (start? masked now timeout id moment : Option (Drain η)) =
      some ⟨now + timeout, Stage.all, none, .record ((Record.start masked id moment stopAction
        stopType).setStat "shutdown_timeout_ms" (millisStat timeout))⟩ := by
  rw [start?, later?, if_pos h]
  rfl

theorem next_of_step (h : d.step masked now moment q = (m, d', q')) :
    d.Next masked now moment q m d' q' := by
  obtain ⟨deadline, upcoming, current, carrier⟩ := d
  cases current with
  | some entered =>
    obtain ⟨stage, opened, count, rest⟩ := entered
    cases rest with
    | cons hook rest => cases h; exact .call rfl rfl
    | nil => cases h; exact .closed rfl rfl
  | none =>
    cases upcoming with
    | nil => cases h; exact .finished rfl rfl
    | cons stage later =>
      cases carrier with
      | record r =>
        cases hrecorded : stage.isRecorded with
        | true =>
          simp only [step, hrecorded] at h
          cases h; exact .opened rfl rfl (.inl hrecorded)
        | false =>
          simp only [step, hrecorded] at h
          cases h; exact .emitted rfl rfl hrecorded rfl
      | detached scope =>
        have hopen : step masked now moment ⟨deadline, stage :: later, none, .detached scope⟩ q =
            (.opened stage,
              openStage now stage later ⟨deadline, stage :: later, none, .detached scope⟩ q) := by
          cases hrecorded : stage.isRecorded <;> simp only [step, hrecorded]
        rw [hopen] at h
        cases h; exact .opened rfl rfl (.inr ⟨scope, rfl⟩)

end Drain

end Logbook.Shutdown
