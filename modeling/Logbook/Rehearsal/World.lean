import Logbook.Delivery.Memory
import Logbook.Delivery.Shipper
import Logbook.Http.Handoff
import Logbook.Http.InFlight
import Logbook.Http.Listener
import Logbook.Metrics
import Logbook.Rehearsal.Activity
import Logbook.Trace.Id
import Logbook.Work.Crew
import Logbook.Work.Tracker
import Logbook.Work.Unit

/-!
# The world of a rehearsal

One service with all its parts, a virtual clock, and the fibers that run in it. A fiber is a piece
of work that runs until it has to wait. Fibers that can go on stand in a queue; the first fiber is
the script itself.
-/

namespace Logbook.Rehearsal

/-- What stands in place of a stack trace. -/
def trace : String := "TRACE"

/-- The calendar at the beginning of a rehearsal, in milliseconds. -/
def epoch : Nat := 1700000000000

/-- A pool with its workers in line, and those who wait for the workers to leave. -/
structure PoolState extends Work.Crew Job where
  leaving : Waiters FiberId

/-- A gate: permits nobody has taken, those who wait for one, and those who have been given one. -/
structure Gate where
  permits : Nat
  waiting : List FiberId
  given : List FiberId

/-- When a fiber wants to be woken; of equal times the earlier wish goes first. -/
structure Timer where
  due : Nat
  fiber : FiberId

/-- What has been seen in a rehearsal, each with its time, the last first. -/
structure Seen where
  records : List (Nat × String)
  calls : List (Nat × String)
  events : List (Nat × String)
  responses : List (Nat × Http.Response)
  /-- Diagnostics. -/
  notices : List (Nat × Diagnostic)
  /-- Lines that went to the diagnostics. -/
  traced : List (Nat × String)

structure World where
  now : Nat
  /-- Readings of the clock so far; no two of them are the same. -/
  readings : Nat
  ids : Trace.Id.Source
  masked : Trace.Mask.Registry
  sink : SinkChoice
  plan : WriterPlan
  memory : Delivery.Memory
  shipper : Delivery.Shipper
  /-- The worker of the shipper, and who waits for it to end. -/
  shipperFiber : FiberId
  shipperWaiters : Waiters FiberId
  metrics : Metrics
  logs : List (String × Record)
  /-- Identifiers of all logs that were begun, with their handles. -/
  handles : List (String × String)
  /-- Identifiers that the script gave. -/
  givenIds : List String
  tracker : Work.Tracker
  trackerWaiters : Waiters FiberId
  /-- The pools by name, and their states. -/
  poolIds : List (String × PoolId)
  pools : List (PoolId × PoolState)
  gates : List (String × Gate)
  sequencer : Shutdown.Sequencer Hook
  startup : Startup.Sequencer Entry
  inFlight : Http.InFlight FiberId
  listener : Http.Listener
  slots : List (Nat × Http.Handoff)
  nextSlot : Nat
  nextFiber : FiberId
  /-- What each fiber is busy with that has not ended. -/
  fibers : List (FiberId × Activity)
  /-- Fibers that can go on, other than the script. -/
  ready : List FiberId
  scriptWoken : Bool
  timers : List Timer
  seen : Seen

namespace World

def emptySeen : Seen := ⟨[], [], [], [], [], []⟩

def ofScript (s : Script) : World where
  now := 0
  readings := 0
  ids := ⟨0xABCDEF, 0⟩
  masked := .empty
  sink := s.sink
  plan := s.writer
  memory := .empty
  shipper := .new
  shipperFiber := 1
  shipperWaiters := .none
  metrics := .empty
  logs := []
  handles := []
  givenIds := []
  tracker := .empty
  trackerWaiters := .none
  poolIds := []
  pools := []
  gates := []
  sequencer := .new s.timeout s.delay
  startup := .empty
  inFlight := .empty
  listener := .idle
  slots := []
  nextSlot := 0
  nextFiber := 2
  fibers := (scriptFiber, .script s.orders .nothing []) ::
    if s.sink = .shipper then [(1, .shipping none)] else []
  ready := if s.sink = .shipper then [1] else []
  scriptWoken := true
  timers := []
  seen := emptySeen

/-! ## Associations -/

def lookup {α β : Type} [DecidableEq α] (key : α) (entries : List (α × β)) : Option β :=
  (entries.find? (·.1 = key)).map (·.2)

def assign {α β : Type} [DecidableEq α] (key : α) (value : β) : List (α × β) → List (α × β)
  | [] => [(key, value)]
  | (k, v) :: entries =>
    if k = key then (key, value) :: entries else (k, v) :: assign key value entries

/-! ## Waking and time -/

/-- Lets a fiber go on. A fiber that stands in the queue does not stand there twice. -/
def wake (fiber : FiberId) (w : World) : World :=
  if fiber = scriptFiber then { w with scriptWoken := true }
  else if fiber ∈ w.ready then w
  else { w with ready := w.ready ++ [fiber] }

def wakeAll (fibers : List FiberId) (w : World) : World := fibers.foldl (fun w f => w.wake f) w

@[simp]
theorem now_wake (fiber : FiberId) (w : World) : (w.wake fiber).now = w.now := by
  unfold wake
  split
  · rfl
  · split <;> rfl

@[simp]
theorem now_wakeAll (fibers : List FiberId) (w : World) : (w.wakeAll fibers).now = w.now := by
  induction fibers generalizing w with
  | nil => rfl
  | cons f fibers ih => exact (ih (w.wake f)).trans (now_wake f w)

/-- Puts a timer behind those that are due before it or with it. -/
def insertTimer (t : Timer) : List Timer → List Timer
  | [] => [t]
  | u :: timers => if t.due < u.due then t :: u :: timers else u :: insertTimer t timers

def setTimer (due : Nat) (fiber : FiberId) (w : World) : World :=
  { w with timers := insertTimer ⟨due, fiber⟩ (w.timers.filter (·.fiber ≠ fiber)) }

def dropTimer (fiber : FiberId) (w : World) : World :=
  { w with timers := w.timers.filter (·.fiber ≠ fiber) }

/-- Moves the clock to the first timer and wakes all whose timers are due then. -/
def skipToTimer (w : World) : Option World :=
  match w.timers with
  | [] => none
  | t :: _ =>
    let due := w.timers.filter (·.due ≤ t.due)
    let w := { w with now := max w.now t.due, timers := w.timers.filter (t.due < ·.due) }
    some (w.wakeAll (due.map Timer.fiber))

def read (w : World) : Moment × World :=
  (⟨epoch + w.now, w.now * 1000000 + w.readings⟩, { w with readings := w.readings + 1 })

def newId (w : World) : String × Moment × World :=
  let (moment, w) := w.read
  let (id, ids) := w.ids.next moment.millis
  (String.ofList id, moment, { w with ids := ids })

/-! ## Fibers -/

def start (a : Activity) (w : World) : FiberId × World :=
  let fiber := w.nextFiber
  (fiber, { w with nextFiber := fiber + 1, fibers := assign fiber a w.fibers }.wake fiber)

def launch (a : Activity) (w : World) : World := (w.start a).2

/-! ## Seeing -/

def call (text : String) (w : World) : World :=
  { w with seen := { w.seen with calls := (w.now, text) :: w.seen.calls } }

def event (text : String) (w : World) : World :=
  { w with seen := { w.seen with events := (w.now, text) :: w.seen.events } }

def respond (response : Http.Response) (w : World) : World :=
  { w with seen := { w.seen with responses := (w.now, response) :: w.seen.responses } }

def report (notice : Diagnostic) (w : World) : World :=
  { w with seen := { w.seen with notices := (w.now, notice) :: w.seen.notices } }

def reportAll (notices : List Diagnostic) (w : World) : World :=
  notices.foldl (fun w n => w.report n) w

def warn (notice : String × List (String × String)) (w : World) : World :=
  w.report (.warning notice.1 notice.2)

/-! ## Delivery -/

def traceLine (line : String) (w : World) : World :=
  { w with seen := { w.seen with traced := (w.now, line) :: w.seen.traced } }

def deliver (line : String) (w : World) : World :=
  let w := { w with seen := { w.seen with records := (w.now, line) :: w.seen.records } }
  match w.sink with
  | .nowhere => w
  | .tracing => w.traceLine line
  | .memory =>
    let (memory, notices) := w.memory.add line
    { w with memory := memory }.reportAll notices
  | .shipper =>
    match w.shipper.emit line with
    | some shipper => { w with shipper := shipper }.wake w.shipperFiber
    | none => w.traceLine line

def emit (emission : Option Record.Emission) (w : World) : World :=
  match emission with
  | none => w
  | some e => { w.deliver e.line with metrics := w.metrics.recordEmitted e.outcome }

/-! ## The tracker -/

/-- Changes the tracker and lets go those who wait if it becomes drained. -/
def updateTracker (f : Work.Tracker → Work.Tracker) (w : World) : World :=
  let tracker := f w.tracker
  if w.tracker.becomesDrained tracker then
    let (released, waiters) := w.trackerWaiters.ring
    { w with tracker := tracker, trackerWaiters := waiters }.wakeAll released
  else { w with tracker := tracker }

@[simp]
theorem now_updateTracker (f : Work.Tracker → Work.Tracker) (w : World) :
    (w.updateTracker f).now = w.now := by
  simp only [updateTracker]
  split
  · exact now_wakeAll ..
  · rfl

/-! ## Pools -/

def pool? (id : PoolId) (w : World) : Option PoolState := lookup id w.pools

def setPool (id : PoolId) (p : PoolState) (w : World) : World :=
  { w with pools := assign id p w.pools }

def publishPool (id : PoolId) (p : PoolState) (w : World) : World :=
  let w := w.setPool id p
  { w with metrics := w.metrics.recordLoad p.pool.name p.pool.load }

def wakeWorker (p : PoolState) (w : World) : World :=
  match p.line with
  | [] => w
  | worker :: _ => w.wake worker

def closePool (id : PoolId) (w : World) : World :=
  match w.pool? id with
  | none => w
  | some p =>
    if p.pool.closed then w
    else (w.setPool id { p with pool := p.pool.close }).wakeWorker p

/-! ## Gates -/

def gate (name : String) (w : World) : Gate := (lookup name w.gates).getD ⟨0, [], []⟩

def setGate (name : String) (g : Gate) (w : World) : World :=
  { w with gates := assign name g w.gates }

/-- Adds permits to a gate; those who wait get theirs first, in order. -/
def openGate (name : String) (permits : Nat) (w : World) : World :=
  let g := w.gate name
  let served := g.waiting.take permits
  let g := { g with
    permits := g.permits + (permits - served.length)
    waiting := g.waiting.drop permits
    given := g.given ++ served }
  (w.setGate name g).wakeAll served

/-- A fiber asks for a permit, or looks whether it has been given one. -/
def askGate (name : String) (fiber : FiberId) (w : World) : Bool × World :=
  let g := w.gate name
  if fiber ∈ g.given then (true, w.setGate name { g with given := g.given.erase fiber })
  else if fiber ∈ g.waiting then (false, w)
  else if 0 < g.permits then (true, w.setGate name { g with permits := g.permits - 1 })
  else (false, w.setGate name { g with waiting := g.waiting ++ [fiber] })

/-! ## Slots of requests -/

def newSlot (h : Http.Handoff) (w : World) : Nat × World :=
  (w.nextSlot, { w with slots := assign w.nextSlot h w.slots, nextSlot := w.nextSlot + 1 })

def setSlot (slot : Nat) (h : Http.Handoff) (w : World) : World :=
  { w with slots := assign slot h w.slots }

def complete (c : Option Http.Completed) (w : World) : World :=
  match c with
  | none => w
  | some c => (w.reportAll c.notices).emit c.emission

def giveBack (slot : Nat) (r : Record) (w : World) : World :=
  match lookup slot w.slots with
  | none => w
  | some h =>
    let (moment, w) := w.read
    let (h, completed) := h.giveBack w.masked trace moment r
    (w.setSlot slot h).complete completed

end World

end Logbook.Rehearsal
