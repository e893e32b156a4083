import Logbook.Proofs.Counters
import Logbook.Proofs.Delivery.Shipment
import Logbook.Proofs.Shutdown.Order
import Logbook.Proofs.Trace.Writes

/-! The drains of a sequencer together with what they leave behind. Of each run the deeds are
written down: the calls and returns of its hooks, what the hooks write into their scope, the closing
of the stages, and the record of the stop. The metrics and the shipper see these deeds; the rest of
the process emits records, ships lines and may stop the shipper as well. A hook writes values and
stats; of the edits of a scope (`Trace.Scope.Edit`) it makes no other, so that the record of the
stop stays the one that was begun. -/

namespace Logbook.Shutdown

variable {η : Type}

/-- What a run does that is seen outside. -/
inductive Deed (η : Type) where
  | called (e : Entry η)
  /-- The hook that was called last writes into its scope. -/
  | wrote (w : Trace.Scope.Write)
  | returned
  /-- A stage is over: the number of its hooks, and how long they took. -/
  | closed (stage : Stage) (hooks millis : Nat)
  | emitted (e : Record.Emission)

namespace Deed

def called? : Deed η → Option (Entry η)
  | called e => some e
  | _ => none

/-- What the scope of the run learns, from a hook or from the closing of a stage. -/
def writes : Deed η → List Trace.Scope.Write
  | wrote w => [w]
  | closed stage hooks millis =>
    [.setStat (Drain.statKey stage "hooks") (millisStat hooks),
      .setStat (Drain.statKey stage "ms") (millisStat millis)]
  | called _ | returned | emitted _ => []

/-- What the metrics count. -/
def measure (m : Metrics) : Deed η → Metrics
  | closed stage hooks _ => m.recordStage stage.index hooks
  | emitted e => m.recordEmitted e.outcome
  | called _ | wrote _ | returned => m

/-- What the shipper sees; some hooks stop it. -/
def deliver (stops : Entry η → Bool) (s : Delivery.Shipment) : Deed η → Delivery.Shipment
  | called e => if stops e then s.stop else s
  | emitted e => s.ship e.line
  | wrote _ | returned | closed .. => s

end Deed

/-- The deeds of one move of a drain. -/
def Drain.deeds (now : Nat) (d : Drain (Entry η)) : Drain.Move (Entry η) → List (Deed η)
  | .call e _ => [.called e]
  | .closed stage hooks =>
    [.closed stage hooks ((d.current.map fun entered => now - entered.opened).getD 0)]
  | .emitted emission => emission.toList.map .emitted
  | .opened _ | .finished => []

variable {P : Surroundings η}

/-- A move of a run with its deeds. What a hook does to its scope is a write. -/
inductive Run.Does (c : Scene P) (r : Run P) : List (Deed η) → Scene P → Run P → Prop where
  /-- The delay is over. -/
  | begins {due : Nat} {c' : Scene P} {r' : Run P} (course : r.course = .delaying due)
      (h : r.Advance c c' r') : Does c r [] c' r'
  | moves {d : Drain (Entry η)} {c' : Scene P} {r' : Run P} (masked : Trace.Mask.Registry)
      (moment : Moment) (course : r.course = .moving d) (h : r.Advance c c' r') :
      Does c r (d.deeds c.now (d.step masked c.now moment c.sequencer).1) c' r'
  | writes {d : Drain (Entry η)} {active active' : P.Active} {c' : Scene P}
      (w : Trace.Scope.Write) (course : r.course = .calling d active)
      (h : r.Advance c c'
        { r with course := .calling { d with carrier := d.carrier.modify w.apply } active' }) :
      Does c r [.wrote w] c'
        { r with course := .calling { d with carrier := d.carrier.modify w.apply } active' }
  | goesOn {d : Drain (Entry η)} {active active' : P.Active} {c' : Scene P}
      (course : r.course = .calling d active)
      (h : r.Advance c c' { r with course := .calling d active' }) :
      Does c r [] c' { r with course := .calling d active' }
  | returns {d d' : Drain (Entry η)} {active : P.Active} {c' : Scene P} {r' : Run P}
      (course : r.course = .calling d active) (course' : r'.course = .moving d')
      (h : r.Advance c c' r') : Does c r [.returned] c' r'
  | panics {d : Drain (Entry η)} {active : P.Active} {dropped : List (Entry η)} {c' : Scene P}
      {r' : Run P} (course : r.course = .calling d active) (course' : r'.course = .failed dropped)
      (h : r.Advance c c' r') : Does c r [] c' r'

theorem Run.Does.advance {c c' : Scene P} {r r' : Run P} {deeds : List (Deed η)}
    (h : r.Does c deeds c' r') : r.Advance c c' r' := by
  cases h <;> assumption

/-! ## Moves by the place of the run -/

section Moves

variable {d : Drain (Entry η)} {q : Sequencer (Entry η)} {masked : Trace.Mask.Registry}
  {now : Nat} {moment : Moment} {entered : OpenStage (Entry η)} {stage : Stage} {later : List Stage}

theorem deeds_call {e : Entry η} {rest : List (Entry η)} (current : d.current = some entered)
    (hrest : entered.rest = e :: rest) :
    d.deeds now (d.step masked now moment q).1 = [.called e] := by
  simp only [Drain.step, current, hrest, Drain.deeds]

theorem deeds_closed (current : d.current = some entered) (hrest : entered.rest = []) :
    d.deeds now (d.step masked now moment q).1 =
      [.closed entered.stage entered.count (now - entered.opened)] := by
  simp only [Drain.step, current, hrest, Drain.deeds, Option.map_some, Option.getD_some]

theorem deeds_opened (current : d.current = none) (upcoming : d.upcoming = stage :: later)
    (hopen : stage.isRecorded = true ∨ ∃ scope, d.carrier = .detached scope) :
    d.deeds now (d.step masked now moment q).1 = [] := by
  obtain ⟨deadline, _, _, carrier⟩ := d
  cases current
  cases upcoming
  cases hrecorded : stage.isRecorded <;> cases carrier <;>
    simp only [Drain.step, hrecorded, Drain.deeds]
  rcases hopen with h | ⟨_, h⟩ <;> simp_all

theorem deeds_emitted {r : Record} (current : d.current = none)
    (upcoming : d.upcoming = stage :: later) (hrecorded : stage.isRecorded = false)
    (carrier : d.carrier = .record r) : d.deeds now (d.step masked now moment q).1 =
      (r.emit masked moment).1.toList.map .emitted := by
  simp only [Drain.step, current, upcoming, hrecorded, carrier, Drain.deeds]

theorem deeds_finished (current : d.current = none) (upcoming : d.upcoming = []) :
    d.deeds now (d.step masked now moment q).1 = [] := by
  simp only [Drain.step, current, upcoming, Drain.deeds]

end Moves

/-- What a move makes of a run, by the place where the run stands. -/
inductive Run.Turn (c : Scene P) (r r' : Run P) : List (Deed η) → Prop where
  | started {due : Nat} {d : Drain (Entry η)} (masked : Trace.Mask.Registry) (id : String)
      (moment : Moment) (course : r.course = .delaying due)
      (h : Drain.start? masked c.now c.sequencer.timeout id moment = some d)
      (course' : r'.course = .moving d) : Turn c r r' []
  | missed {due : Nat} (course : r.course = .delaying due) (course' : r'.course = .failed []) :
      Turn c r r' []
  | opened {d : Drain (Entry η)} {stage : Stage} {later : List Stage}
      (course : r.course = .moving d) (current : d.current = none)
      (upcoming : d.upcoming = stage :: later)
      (hopen : stage.isRecorded = true ∨ ∃ scope, d.carrier = .detached scope)
      (course' : r'.course = .moving (d.openStage c.now stage later c.sequencer).1) : Turn c r r' []
  | called {d : Drain (Entry η)} {entered : OpenStage (Entry η)} {e : Entry η}
      {rest : List (Entry η)} {active : P.Active} (course : r.course = .moving d)
      (current : d.current = some entered) (hrest : entered.rest = e :: rest)
      (course' : r'.course =
        .calling { d with current := some { entered with rest := rest } } active) :
      Turn c r r' [.called e]
  | wrote {d : Drain (Entry η)} {active active' : P.Active} (w : Trace.Scope.Write)
      (course : r.course = .calling d active)
      (course' : r'.course = .calling { d with carrier := d.carrier.modify w.apply } active') :
      Turn c r r' [.wrote w]
  | wentOn {d : Drain (Entry η)} {active active' : P.Active} (course : r.course = .calling d active)
      (course' : r'.course = .calling d active') : Turn c r r' []
  | returned {d : Drain (Entry η)} {active : P.Active} (course : r.course = .calling d active)
      (course' : r'.course = .moving d) : Turn c r r' [.returned]
  | panicked {d : Drain (Entry η)} {active : P.Active} {dropped : List (Entry η)}
      (course : r.course = .calling d active) (course' : r'.course = .failed dropped) :
      Turn c r r' []
  | closed {d : Drain (Entry η)} {entered : OpenStage (Entry η)} (course : r.course = .moving d)
      (current : d.current = some entered) (hrest : entered.rest = [])
      (course' : r'.course = .moving (d.closeStage c.now entered)) :
      Turn c r r' [.closed entered.stage entered.count (c.now - entered.opened)]
  | emitted {d : Drain (Entry η)} {stage : Stage} {later : List Stage} {stop : Record}
      (masked : Trace.Mask.Registry) (moment : Moment) (course : r.course = .moving d)
      (current : d.current = none) (upcoming : d.upcoming = stage :: later)
      (hrecorded : stage.isRecorded = false) (carrier : d.carrier = .record stop)
      (course' : r'.course = .moving { d with carrier := .detached .detached }) :
      Turn c r r' ((stop.emit masked moment).1.toList.map .emitted)
  | finished {d : Drain (Entry η)} {time : Nat} (course : r.course = .moving d)
      (current : d.current = none) (upcoming : d.upcoming = [])
      (course' : r'.course = .finished time) : Turn c r r' []

/-- A move is one from the place where the run stands, and it tells of the hook that it calls. -/
theorem Run.Does.turn {c c' : Scene P} {r r' : Run P} {deeds : List (Deed η)}
    (h : r.Does c deeds c' r') : r.Turn c r' deeds ∧
      r'.calls.map Call.entry = r.calls.map Call.entry ++ deeds.filterMap Deed.called? := by
  have hcalls (calls : List (Call η)) : calls.map Call.entry = calls.map Call.entry ++ [] :=
    (List.append_nil _).symm
  cases h with
  | begins course h =>
    cases h with
    | start masked id moment course' _ h =>
      exact ⟨.started masked id moment course' h rfl, hcalls _⟩
    | miss _ _ _ course' => exact ⟨.missed course' rfl, hcalls _⟩
    | opens _ _ course' | calls _ _ course' | proceeds _ course' | returns course'
    | panics course' | closes _ _ course' | emits _ _ course' | finishes _ _ course' =>
      cases course.symm.trans course'
  | moves masked moment course h =>
    cases h with
    | opens _ _ course' h =>
      cases course.symm.trans course'
      cases Drain.next_of_step h with
      | opened current upcoming hopen =>
        rw [deeds_opened current upcoming hopen]
        exact ⟨.opened course current upcoming hopen rfl, hcalls _⟩
    | calls _ _ course' h =>
      cases course.symm.trans course'
      cases Drain.next_of_step h with
      | call current hrest =>
        rw [deeds_call current hrest]
        exact ⟨.called course current hrest rfl, List.map_append⟩
    | closes _ _ course' h =>
      cases course.symm.trans course'
      cases Drain.next_of_step h with
      | closed current hrest =>
        rw [deeds_closed current hrest]
        exact ⟨.closed course current hrest rfl, hcalls _⟩
    | emits _ _ course' h =>
      cases course.symm.trans course'
      cases Drain.next_of_step h with
      | @emitted _ _ stop current upcoming hrecorded carrier =>
        rw [deeds_emitted current upcoming hrecorded carrier]
        refine ⟨.emitted masked moment course current upcoming hrecorded carrier rfl, ?_⟩
        cases (stop.emit masked moment).1 <;> exact hcalls _
    | finishes _ _ course' h =>
      cases course.symm.trans course'
      cases Drain.next_of_step h with
      | finished current upcoming =>
        rw [deeds_finished current upcoming]
        exact ⟨.finished course current upcoming rfl, hcalls _⟩
    | start _ _ _ course' | miss _ _ _ course' | proceeds _ course' | returns course'
    | panics course' => cases course.symm.trans course'
  | writes w course => exact ⟨.wrote w course rfl, hcalls _⟩
  | goesOn course => exact ⟨.wentOn course rfl, hcalls _⟩
  | returns course course' h =>
    cases h with
    | returns course'' hcalls' =>
      cases course.symm.trans course''
      refine ⟨.returned course rfl, ?_⟩
      simp only [hcalls', List.map_append, List.map_cons, List.map_nil]
      exact (List.append_nil _).symm
    | proceeds | panics => cases course'
    | start _ _ _ course'' | miss _ _ _ course'' | opens _ _ course'' | calls _ _ course''
    | closes _ _ course'' | emits _ _ course'' | finishes _ _ course'' =>
      cases course.symm.trans course''
  | panics course course' h =>
    cases h with
    | panics => exact ⟨.panicked course course', hcalls _⟩
    | proceeds | returns => cases course'
    | start _ _ _ course'' | miss _ _ _ course'' | opens _ _ course'' | calls _ _ course''
    | closes _ _ course'' | emits _ _ course'' | finishes _ _ course'' =>
      cases course.symm.trans course''

/-! ## All runs -/

/-- A run with its deeds so far. -/
structure Diary (P : Surroundings η) where
  run : Run P
  deeds : List (Deed η)

structure Diaries (P : Surroundings η) extends Scene P where
  diaries : List (Diary P)
  metrics : Metrics
  shipment : Delivery.Shipment
  /-- Somebody else has stopped the shipper. -/
  halted : Bool

namespace Diaries

/-- The runs alone. -/
def drains (s : Diaries P) : Drains P := ⟨s.toScene, s.diaries.map Diary.run⟩

def start (P : Surroundings η) (timeout : Nat) (delay : Option Nat) (state : P.State) :
    Diaries P where
  toScene := (Drains.start P timeout delay state).toScene
  diaries := []
  metrics := .empty
  shipment := .start
  halted := false

/-- One of the runs, between the others, has made a move. -/
def move (stops : Entry η → Bool) (before : List (Diary P)) (t : Diary P) (after : List (Diary P))
    (deeds : List (Deed η)) (c : Scene P) (r : Run P) (s : Diaries P) : Diaries P where
  toScene := c
  diaries := before ++ ⟨r, t.deeds ++ deeds⟩ :: after
  metrics := deeds.foldl Deed.measure s.metrics
  shipment := deeds.foldl (Deed.deliver stops) s.shipment
  halted := s.halted

inductive Step (writer : Delivery.Writer) (stops : Entry η → Bool) (s : Diaries P) :
    Diaries P → Prop where
  | register (stage : Stage) (hook : η) : Step writer stops s
      { s with toScene := (s.drains.register stage hook).toScene }
  | begin : Step writer stops s
      { s with
        toScene := s.drains.begin.toScene
        diaries := s.diaries ++
          [⟨⟨s.now, .delaying (s.now + s.sequencer.delay.getD 0), [], [], 0⟩, []⟩] }
  | works {state : P.State} (h : P.works s.sequencer.flags s.now s.state state) :
      Step writer stops s { s with state := state }
  | moves {before after : List (Diary P)} {t : Diary P} {deeds : List (Deed η)} {c : Scene P}
      {r : Run P} (hdiaries : s.diaries = before ++ t :: after)
      (h : t.run.Does s.toScene deeds c r) :
      Step writer stops s (s.move stops before t after deeds c r)
  | tick (h : ∀ t ∈ s.diaries, t.run.Waits s.toScene) :
      Step writer stops s { s with now := s.now + 1 }
  /-- Somebody else emits a record. -/
  | emits (e : Record.Emission) : Step writer stops s
      { s with metrics := s.metrics.recordEmitted e.outcome, shipment := s.shipment.ship e.line }
  /-- The worker of the shipper makes a move. -/
  | ships {shipment : Delivery.Shipment} (h : s.shipment.Work writer shipment) :
      Step writer stops s { s with shipment := shipment }
  | halts : Step writer stops s { s with shipment := s.shipment.stop, halted := true }

inductive Later (writer : Delivery.Writer) (stops : Entry η → Bool) (s : Diaries P) :
    Diaries P → Prop where
  | refl : Later writer stops s s
  | step {t u : Diaries P} (H : Later writer stops s t) (h : Step writer stops t u) :
      Later writer stops s u

def Reachable (writer : Delivery.Writer) (stops : Entry η → Bool) (timeout : Nat)
    (delay : Option Nat) (state : P.State) (s : Diaries P) : Prop :=
  Later writer stops (start P timeout delay state) s

variable {writer : Delivery.Writer} {stops : Entry η → Bool} {timeout : Nat} {delay : Option Nat}
  {state : P.State} {s t u : Diaries P} {y : Diary P}

theorem Later.trans (H : Later writer stops s t) (H' : Later writer stops t u) :
    Later writer stops s u := by
  induction H' with
  | refl => exact H
  | step _ h ih => exact ih.step h

theorem drains_between {before after : List (Diary P)}
    (hdiaries : s.diaries = before ++ y :: after) :
    s.drains.runs = before.map Diary.run ++ y.run :: after.map Diary.run := by
  rw [drains, hdiaries, List.map_append, List.map_cons]

/-- What is written down changes nothing for the runs. -/
theorem Step.drains (h : Step writer stops s t) : t.drains = s.drains ∨ s.drains.Step t.drains := by
  cases h with
  | register stage hook => exact .inr (.register stage hook)
  | begin =>
    have hbegin : s.drains.Step s.drains.begin := .begin
    refine .inr ?_
    simp only [Diaries.drains, List.map_append] at hbegin ⊢
    exact hbegin
  | works h => exact .inr (.works h)
  | moves hdiaries h =>
    have hmove := Drains.Step.advance (drains_between hdiaries) h.advance
    refine .inr ?_
    simp only [Diaries.drains, move, List.map_append, List.map_cons] at hmove ⊢
    exact hmove
  | tick h => exact .inr (.tick fun r hr => by
      obtain ⟨t, ht, rfl⟩ := List.mem_map.mp hr
      exact h t ht)
  | emits | ships | halts => exact .inl rfl

theorem Reachable.drains (h : Reachable writer stops timeout delay state s) :
    Drains.Reachable timeout delay state s.drains := by
  induction h with
  | refl => exact .refl
  | step _ h ih =>
    rcases h.drains with heq | hstep
    · exact heq ▸ ih
    · exact .step ih hstep

theorem later_deliver (writer : Delivery.Writer) (stops : Entry η → Bool) (deeds : List (Deed η))
    (s : Delivery.Shipment) : s.Later writer (deeds.foldl (Deed.deliver stops) s) := by
  induction deeds generalizing s with
  | nil => exact .refl
  | cons deed deeds ih =>
    refine .trans (t := deed.deliver stops s) ?_ (ih _)
    cases deed with
    | called e =>
      rw [Deed.deliver]
      split
      · exact .step .refl .stops
      · exact .refl
    | emitted e => exact .step .refl (.ships e.line)
    | wrote | returned | closed => exact .refl

/-- The shipper goes its own way. -/
theorem Step.shipment (h : Step writer stops s t) : s.shipment.Later writer t.shipment := by
  cases h with
  | register | begin | works | tick => exact .refl
  | moves => exact later_deliver ..
  | emits e => exact .step .refl (.ships e.line)
  | ships h => exact .step .refl (.works h)
  | halts => exact .step .refl .stops

theorem Later.shipment (H : Later writer stops s t) : s.shipment.Later writer t.shipment := by
  induction H with
  | refl => exact .refl
  | step _ h ih => exact ih.trans h.shipment

/-- The worker of the shipper can go on while nothing else happens. -/
theorem later_of_working {shipment : Delivery.Shipment}
    (H : Delivery.Shipment.Working writer s.shipment shipment) :
    Later writer stops s { s with shipment := shipment } := by
  generalize hshipment : s.shipment = first at H
  induction H generalizing s with
  | refl => exact hshipment ▸ .refl
  | step h H ih =>
    refine .trans (.step .refl (.ships (hshipment ▸ h))) ?_
    exact ih (s := { s with shipment := _ }) rfl

end Diaries

end Logbook.Shutdown
