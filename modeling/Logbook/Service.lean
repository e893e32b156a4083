import Logbook.Config.Schema
import Logbook.Http.Handoff
import Logbook.Http.Request
import Logbook.Json.Reader
import Logbook.Metrics
import Logbook.Shutdown.Sequencer
import Logbook.Shutdown.Standard
import Logbook.Trace.Id
import Logbook.Work.Tracker
import Logbook.Work.Unit

/-!
# The running service

Besides the health check the service answers two paths: `/status` tells of its pool and its tracker,
`/echo` gives a JSON body back. No request waits for anything, so each is answered in one move with
all that it leaves behind, and a drain between two requests never waits either. What goes out is
collected in the outbox.
-/

namespace Logbook

inductive Service.Output where
  | record (line : String)
  | notice (d : Diagnostic)

structure Service where
  config : Config
  ids : Trace.Id.Source
  masked : Trace.Mask.Registry
  metrics : Metrics
  tracker : Work.Tracker
  pool : Work.Pool Unit
  sequencer : Shutdown.Sequencer (Shutdown.Standard Unit)
  /-- What has not been sent, the last first. -/
  outbox : List Service.Output

namespace Service

abbrev Action := StateM Service

def poolName : String := "default"

def ofConfig (config : Config) (machine : Nat) (counter : UInt32) : Service :=
  let pool : Work.Pool Unit := .ofSize poolName config.executor.poolSize
  let shipper := if config.trace.sink = .stdout then Shutdown.Standard.shipper else []
  { config := config
    ids := ⟨machine, counter⟩
    masked := Trace.Mask.Registry.empty.register config.trace.maskedFields
    metrics := Metrics.empty.recordLoad pool.name pool.load
    tracker := .empty
    pool := pool
    sequencer :=
      (Shutdown.Sequencer.ofSeconds config.shutdown.timeoutSecs config.shutdown.delaySecs).addAll
        (shipper ++ Shutdown.Standard.tracker ++ Shutdown.Standard.pool () ++
          Shutdown.Standard.server)
    outbox := [] }

def send (output : Output) : Action Unit := modify fun s => { s with outbox := output :: s.outbox }

def notice (message : String) (fields : List (String × String)) : Action Unit :=
  send (.notice ⟨.info, message, fields⟩)

def emit (emission : Option Record.Emission) : Action Unit := do
  match emission with
  | none => pure ()
  | some e =>
    send (.record e.line)
    modify fun s => { s with metrics := s.metrics.recordEmitted e.outcome }

def newId (now : Moment) : Action String := do
  let s ← get
  let (id, ids) := s.ids.next now.millis
  set { s with ids := ids }
  return String.ofList id

def collect : Action (List Output) :=
  modifyGet fun s => (s.outbox.reverse, { s with outbox := [] })

/-! ## Requests -/

def bodyLimit : Nat := 2 * 1024 * 1024

def bodyText (body : ByteArray) : Except Http.Response String :=
  if bodyLimit < body.size then
    .error (.plain 413 "Failed to buffer the request body: length limit exceeded")
  else
    match String.fromUTF8? body with
    | some text => .ok text
    | none => .error (.plain 400 "Request body is not valid UTF-8")

def status (s : Service) : Http.Response :=
  let load := s.pool.load
  .plain 200 (Json.object
    [("executor", .object
      [("name", .string s.pool.name), ("running", .integer load.running),
        ("free", .integer load.free), ("waiting", .integer load.waiting)]),
      ("joined_tasks", .integer s.tracker.count)]).text

/-- A joined unit of work that notes how many members an object has. -/
def audit (now : Moment) (parent : Trace.Link) (value : Json) : Action Unit := do
  let members := match value with
    | .object members => members.length
    | _ => 0
  modify fun s => { s with tracker := s.tracker.join }
  let id ← newId now
  let course : Work.Course := .ran [.write (.setStat "fields" (Float.ofNat members))] .returned
  let masked := (← get).masked
  match Work.execute masked masked "" parent id now now "audit" Work.taskType course with
  | .ok closed => emit closed.emission
  | .error _ => pure ()
  modify fun s => { s with tracker := s.tracker.leave }

/-- Gives a JSON body back. The record of the request keeps it both ways. -/
def echo (now : Moment) (body : ByteArray) (record : Record) : Action (Record × Http.Response) := do
  match bodyText body with
  | .error refusal => return (record, refusal)
  | .ok text =>
    match Json.read text.toList with
    | .error e => return (record, .ofFailure (.app (.badRequest e.message "echo")))
    | .ok value =>
      let record := { record with requestBody := some text, responseBody := some text }
      let record := record.setStat "body_bytes" (Float.ofNat text.utf8ByteSize)
      audit now record.scope.link value
      return (record, .plain 200 text)

def handle (now : Moment) (request : Http.Request) (body : ByteArray) (record : Record) :
    Action (Record × Http.Response) := do
  let path := request.path
  if path = "/status" then
    if request.method = "GET" ∨ request.method = "HEAD" then return (record, (← get).status)
    else return (record, .plain 405 "")
  else if path = "/echo" then
    if request.method = "POST" then echo now body record else return (record, .plain 405 "")
  else return (record, .plain 404 "")

def respond (now : Moment) (request : Http.Request) (body : ByteArray) : Action Http.Response := do
  let s ← get
  match request.admission s.sequencer.flags with
  | .passes =>
    return Http.Request.outgoing request.method
      (Http.Request.health request.method s.sequencer.flags.shutdown)
  | .refused =>
    emit (request.turnAway s.masked (← newId now) now now)
    return Http.Request.outgoing request.method Http.Request.refused
  | .admitted =>
    let record := request.begin s.masked (← newId now) now
    let (record, response) ← handle now request body record
    let (response, _, completed) :=
      (Http.Handoff.holding record).answer s.masked "" now (.responded response)
    match completed with
    | some c =>
      c.notices.forM fun d => send (.notice d)
      emit c.emission
    | none => pure ()
    return Http.Request.outgoing request.method response

/-! ## The drain -/

/-- A drain begins with the flag that all can see. -/
def beginDrain (signal : String) : Action Unit := do
  notice "Termination signal received" [("signal", signal)]
  modify fun s => { s with sequencer := s.sequencer.announce }
  let sequencer := (← get).sequencer
  notice "Shutdown started" [("timeout_ms", toString sequencer.timeout)]
  match sequencer.delay with
  | some delay => notice "Delaying shutdown" [("delay_ms", toString delay)]
  | none => pure ()

def callHook (hook : Shutdown.Standard Unit) : Action Unit := do
  let s ← get
  match hook with
  | .closeTracker | .awaitTracker => set { s with tracker := s.tracker.close }
  | .closePool _ =>
    set { s with pool := s.pool.close }
    notice "Executor shutting down"
      [("executor", s.pool.name), ("waiting", toString s.pool.waiting)]
  | .awaitPool _ => notice "Executor terminated" [("executor", s.pool.name)]
  | .refuseRequests => notice "HTTP server refusing new requests" [("in_flight", "0")]
  | .awaitRequests => pure ()
  | .stopListener => notice "HTTP server stopped" []
  | .stopShipping => notice "Log shipper stopped" []

def goThrough (now : Nat) (moment : Moment) :
    Nat → Shutdown.Drain (Shutdown.Standard Unit) → Action Unit
  | 0, _ => pure ()
  | moves + 1, drain => do
    let s ← get
    let (move, drain, sequencer) := drain.step s.masked now moment s.sequencer
    set { s with sequencer := sequencer }
    match move with
    | .finished => notice "Shutdown completed" []
    | .call hook _ =>
      callHook hook
      goThrough now moment moves drain
    | .opened stage =>
      match drain.current with
      | some entered =>
        notice "Shutdown stage started" [("stage", toString stage.index), ("name", stage.name),
          ("hooks", toString entered.count)]
      | none => pure ()
      goThrough now moment moves drain
    | .closed stage hooks =>
      modify fun s => { s with metrics := s.metrics.recordStage stage.index hooks }
      notice "Shutdown stage finished" [("stage", toString stage.index), ("name", stage.name)]
      goThrough now moment moves drain
    | .emitted emission =>
      emit emission
      goThrough now moment moves drain

/-- The moves of a drain: each stage is opened and closed, each hook is called, the record is
emitted, and the drain is found to be finished. -/
def moveCount (s : Service) : Nat :=
  Shutdown.Stage.all.foldr (fun stage n => s.sequencer.hookCount stage + 2 + n) 2

/-- Goes through the stages when the delay is over; `false` if the deadline is no moment. -/
def drain (now : Nat) (moment : Moment) : Action Bool := do
  modify fun s => { s with sequencer := s.sequencer.passDelay }
  let id ← newId moment
  let s ← get
  match Shutdown.Drain.start? s.masked now s.sequencer.timeout id moment with
  | none => return false
  | some d =>
    goThrough now moment s.moveCount d
    notice "Shutdown complete" []
    return true

end Service

end Logbook
