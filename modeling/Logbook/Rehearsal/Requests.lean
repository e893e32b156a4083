import Logbook.Rehearsal.Bodies

/-!
# Requests of a rehearsal

A request goes through its admission, finds its handler, runs the steps of the handler, and is
answered. Handlers take the record of the request, except on the raw route.
-/

namespace Logbook.Rehearsal

inductive Route where
  /-- A handler with the record. -/
  | recorded
  /-- Asks for the record twice. -/
  | twice
  /-- A handler without the record. -/
  | raw
  | notAllowed
  | notFound

def Route.find (method path : String) : Route :=
  let onlyRead := method = "GET" ∨ method = "HEAD"
  match path.toList with
  | '/' :: 'h' :: '/' :: rest => if rest.isEmpty then .notFound else .recorded
  | _ =>
    if path = "/twice" then .twice
    else if path = "/get-only" then (if onlyRead then .recorded else .notAllowed)
    else if path = "/raw" then .raw
    else .notFound

/-- What comes of a move of a request: it goes on, waits, or is answered; outside the boundary of
the service a panic has no answer. -/
inductive Served where
  | next (n : Next Serving)
  | answered (r : Http.Response)
  | panicked

namespace World

/-- What is told if a handler asks for a record that it cannot have. -/
def missingRecord (tracked : Bool) : Diagnostic :=
  if tracked then .error "WebAction extracted twice for one request" []
  else .error "WebAction extracted outside the tracking middleware" []

/-- Answers a request when its handler has ended; the record that the handler holds is given back
first. -/
def answerRequest (request : Http.Request) (slot : Option Nat) (held : Option Record)
    (reply : Http.Reply) (w : World) : Served × World :=
  match slot with
  | none =>
    match reply with
    | .responded r =>
      (.answered (Http.Request.outgoing request.method { r with failure := none }), w)
    | .panicked _ => (.panicked, w)
  | some slot =>
    let w := match held with
      | some r => w.giveBack slot r
      | none => w
    let h := (lookup slot w.slots).getD ⟨none, none⟩
    let (moment, w) := w.read
    let (response, h, completed) := h.answer w.masked trace moment reply
    let w := (w.setSlot slot h).complete completed
    let (released, inFlight) := w.inFlight.leave
    (.answered (Http.Request.outgoing request.method response),
      { w with inFlight := inFlight }.wakeAll released)

def takeRecord (slot : Option Nat) (w : World) : Option Record × World :=
  match slot.bind fun s => (lookup s w.slots).bind fun h => h.take?.map fun (r, h) => (s, r, h) with
  | some (s, r, h) => (some r, w.setSlot s h)
  | none => (none, w)

/-- Finds the handler of a request and lets it take the record. -/
def routeRequest (request : Http.Request) (slot : Option Nat) (steps : List Step) (w : World) :
    Served × World :=
  let answer (status : Nat) (held : Option Record) (w : World) : Served × World :=
    w.answerRequest request slot held (.responded (.plain status ""))
  let withRecord (go : Record → World → Served × World) : Served × World :=
    match w.takeRecord slot with
    | (some r, w) => go r w
    | (none, w) => answer 500 none (w.report (missingRecord slot.isSome))
  match Route.find request.method request.path with
  | .notFound => answer 404 none w
  | .notAllowed => answer 405 none w
  | .raw => (.next (.go (.handling request slot none (.of steps))), w)
  | .recorded =>
    withRecord fun r w => (.next (.go (.handling request slot (some r) (.of steps))), w)
  | .twice => withRecord fun r w => answer 500 (some r) (w.report (missingRecord true))

/-- Lets a request in: the health check goes straight through, a late request is refused, any other
gets a record and is counted. -/
def letIn (request : Http.Request) (steps : List Step) (w : World) : Served × World :=
  match request.admission w.sequencer.flags with
  | .passes =>
    let response := Http.Request.health request.method w.sequencer.flags.shutdown
    (.answered (Http.Request.outgoing request.method response), w)
  | .refused =>
    let (id, begun, w) := w.newId
    let (moment, w) := w.read
    (.answered (Http.Request.outgoing request.method Http.Request.refused),
      w.emit (request.turnAway w.masked id begun moment))
  | .admitted =>
    let (id, moment, w) := w.newId
    let record := request.begin w.masked id moment
    let w := { w with inFlight := w.inFlight.enter }
    let (slot, w) := w.newSlot (.holding record)
    w.routeRequest request (some slot) steps

/-! ## Steps of handlers -/

inductive HandlerAfter where
  | goOn (pause : Pause) (held : Option Record)
  | reply (reply : Http.Reply) (held : Option Record)

def handBack (slot : Option Nat) (held : Option Record) (w : World) : World :=
  match slot, held with
  | some slot, some r => w.giveBack slot r
  | _, _ => w

/-- One step of a handler. Writing has no effect when the record has been given away, and nobody is
told of work that a pool refuses. -/
def performHandler (fiber : FiberId) (slot : Option Nat) (held : Option Record) (step : Step)
    (w : World) : HandlerAfter × World :=
  let write (f : Record → Record) : HandlerAfter × World := (.goOn .over (held.map f), w)
  let paused (r : Pause × World) : HandlerAfter × World := (.goOn r.1 held, r.2)
  match step with
  | .put key values => write (·.put w.masked key values)
  | .stat key value => write (·.setStat key value)
  | .increase key value => write (·.addStat key value)
  | .requestBody text => write fun r => { r with requestBody := some text }
  | .responseBody text => write fun r => { r with responseBody := some text }
  | .event text =>
    match held with
    | some r => (.goOn .over held, w.event (text ++ " [" ++ r.action ++ "] id=true"))
    | none => (.goOn .over held, w)
  | .sleep millis => paused (w.sleep fiber millis)
  | .gate name => paused (w.pauseAtGate fiber name)
  | .spawn name closure target steps =>
    let link := (held.map fun r => r.scope.link).getD ⟨"", ""⟩
    (.goOn .over held, (w.spawn link name closure target steps).2)
  | .giveBack => (.goOn .over none, w.handBack slot held)
  | .hold millis key values =>
    match slot, held with
    | some slot, some r => (.goOn .over none, w.launch (.holding slot r millis none key values))
    | _, _ => (.goOn .over held, w)
  | .fail failure => (.reply (.responded (.ofFailure failure)) held, w)
  | .panic payload => (.reply (.panicked payload) held, w)
  | .reply status body => (.reply (.responded (.plain status body)) held, w)
  | _ => (.goOn .over held, w)

/-- The reply of a handler that has gone through all its steps. -/
def defaultReply : Http.Response := .plain 200 "ok"

def moveServing (fiber : FiberId) (s : Serving) (w : World) : Served × World :=
  match s with
  | .arriving request steps bare =>
    if bare then w.routeRequest request none steps else w.letIn request steps
  | .handling request slot held body =>
    match w.isOver fiber body.pause with
    | (false, w) => (.next (.wait s), w)
    | (true, w) =>
      match body.steps with
      | [] => w.answerRequest request slot held (.responded defaultReply)
      | step :: steps =>
        match w.performHandler fiber slot held step with
        | (.goOn pause held, w) =>
          (.next (.go (.handling request slot held ⟨steps, pause⟩)), w)
        | (.reply reply held, w) => w.answerRequest request slot held reply

/-- Lets go of all work that has not come to its end: records that are still held are given back. -/
def abandon (w : World) : World :=
  w.fibers.foldl (fun w (_, a) =>
    match a with
    | .holding slot record .. => w.giveBack slot record
    | _ => w) w

/-- One move of the work that holds a record for a while. -/
def moveHolding (fiber : FiberId) (slot : Nat) (record : Record) (millis : Nat)
    (due : Option Nat) (key : String) (values : List String) (w : World) : Next Nat × World :=
  let finish (w : World) : Next Nat × World :=
    (.over, w.giveBack slot (record.put w.masked key values))
  match due with
  | some due => if due ≤ w.now then finish w else (.wait due, w)
  | none =>
    if millis = 0 then finish w else (.wait (w.now + millis), w.setTimer (w.now + millis) fiber)

end World

end Logbook.Rehearsal
