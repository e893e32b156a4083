import Logbook.Rehearsal.Drains
import Logbook.Rehearsal.Requests

/-!
# Orders

What the script of a rehearsal does with an order: it has an answer at once, or the script is busy
with it for a while.
-/

namespace Logbook.Rehearsal

inductive Progress where
  | answer (a : Answer)
  | busy (doing : Doing)

namespace World

def log? (handle : String) (w : World) : Option Record := lookup handle w.logs

def setLog (handle : String) (r : Record) (w : World) : World :=
  { w with logs := assign handle r w.logs }

def addLog (handle : String) (r : Record) (w : World) : World :=
  { w.setLog handle r with handles := (r.id, handle) :: w.handles }

/-- The link of a parent; `none` if it is a log that does not exist. -/
def link? (parent : Parent) (w : World) : Option Trace.Link × World :=
  match parent with
  | .log handle => ((w.log? handle).map fun r => r.scope.link, w)
  | .given link => (some link, { w with givenIds := link.id :: w.givenIds })
  | .nobody => (some ⟨"", ""⟩, w)

def changeLog (order : LogOrder) (r : Record) (w : World) : Record × World :=
  match order with
  | .rename action => (r.rename action, w)
  | .client text => ({ r with client := some text }, w)
  | .requestBody text => ({ r with requestBody := some text }, w)
  | .responseBody text => ({ r with responseBody := some text }, w)
  | .put key values => (r.put w.masked key values, w)
  | .stat key value => (r.setStat key value, w)
  | .increase key value => (r.addStat key value, w)
  | .escalate outcome => (r.escalate outcome, w)
  | .endWith outcome =>
    let (moment, w) := w.read
    (r.finishWith outcome moment, w)
  | .fail code message trace => (r.fail code message trace, w)
  | .failure failure =>
    let r := r.fault w.masked failure trace
    (r, w.report (r.faultNotice failure))
  | .finish =>
    let (moment, w) := w.read
    (r.finish moment, w)
  | .output =>
    let (moment, w) := w.read
    let (emission, r) := r.emit w.masked moment
    (r, w.emit emission)
  | .look => (r, w)

def awaitNamedPool (name : String) (budget : Nat) (w : World) : Progress × World :=
  match lookup name w.poolIds with
  | some i => (.busy (.awaiting (w.waitFor (.pool i) budget) false), w)
  | none => (.answer .noPool, w)

def follow (order : Order) (w : World) : Progress × World :=
  let quiet (w : World) : Progress × World := (.answer .nothing, w)
  let tell (a : Answer) : Progress × World := (.answer a, w)
  match order with
  | .mask names => quiet { w with masked := w.masked.register names }
  | .start handle action actionType =>
    let (id, moment, w) := w.newId
    let r := Record.start w.masked id moment action actionType
    (.answer (.log r), w.addLog handle r)
  | .startChild handle parent action actionType =>
    match w.link? parent with
    | (none, w) => (.answer .unknown, w)
    | (some link, w) =>
      let (id, moment, w) := w.newId
      let r := Record.startChild w.masked link id moment action actionType
      (.answer (.log r), w.addLog handle r)
  | .log handle order =>
    match w.log? handle with
    | none => tell .unknown
    | some r =>
      let (r, w) := w.changeLog order r
      (.answer (.log r), w.setLog handle r)
  | .line handle =>
    match w.log? handle with
    | none => tell .unknown
    | some r => tell (.line (r.line w.masked))
  | .spawn parent name closure target steps =>
    let (link, w) := w.link? parent
    let (answer, w) := w.spawn (link.getD ⟨"", ""⟩) name closure target steps
    (.answer answer, w)
  | .advance millis =>
    let due := w.now + millis
    (.busy (.advancing due), w.setTimer due scriptFiber)
  | .openGate name permits => quiet (w.openGate name permits)
  | .pool name size => quiet (w.createPool name size)
  | .load name =>
    match (lookup name w.poolIds).bind fun i => w.pool? i with
    | some p => tell (.load p.pool.name p.pool.load)
    | none => tell .noPool
  | .closePool name => quiet (w.closeNamed name)
  | .awaitPool name budget => w.awaitNamedPool name budget
  | .tracker => tell (.tracker w.tracker.count w.tracker.closed)
  | .register what => quiet (w.register what)
  | .hook hook => quiet (w.addHook hook)
  | .hookCount => tell (.numbers (Shutdown.Stage.all.map fun s => w.sequencer.hookCount s))
  | .flags => tell (.flags w.sequencer.flags)
  | .drain background =>
    if background then quiet (w.launch (.drain .arriving)) else (.busy (.draining .arriving), w)
  | .request request steps background bare =>
    let serving := Serving.arriving request steps bare
    if background then quiet (w.launch (.request serving)) else (.busy (.serving serving), w)
  | .inFlight => tell (.number w.inFlight.count)
  | .awaitIdle budget => (.busy (.awaiting (w.waitFor .idle budget) false), w)
  | .stopServer budget =>
    match w.stopListener budget with
    | (some wait, w) => (.busy (.awaiting wait true), w)
    | (none, w) => quiet w
  | .addEntry phase entry => quiet { w with startup := w.startup.add phase entry }
  | .pendingEntries phase => tell (.pending phase (w.startup.pending phase).length)
  | .startup phases =>
    match Startup.begin? phases w.startup with
    | (some run, startup) => (.busy (.starting run none), { w with startup := startup })
    | (none, startup) => (.answer .done, { w with startup := startup })
  | .emit text => quiet (w.deliver text)
  | .stopShipper budget =>
    match w.stopShipper budget with
    | (some wait, w) => (.busy (.awaiting wait true), w)
    | (none, w) => quiet w
  | .shipperRunning => tell (.flag (w.sink = .shipper && w.shipper.accepting))
  | .stageMetric stage hooks => quiet { w with metrics := w.metrics.recordStage stage hooks }
  | .loadMetric name running free waiting =>
    quiet { w with metrics := w.metrics.recordLoad name ⟨running, free, waiting⟩ }
  | .unknown => tell .unknown

/-- One move of a startup: the next entry is called, or the one that was called has come to its
end. -/
def moveStartup (run : Startup.Run Entry) (entry : Option (Nat × Option String)) (w : World) :
    Next Progress × World :=
  match entry with
  | some (due, error) =>
    if w.now < due then (.wait (.busy (.starting run entry)), w)
    else
      match error with
      | none => (.go (.busy (.starting run none)), w)
      | some message =>
        let e := run.error message
        (.go (.answer (.startupFailed e)), w.report (.error "Startup entry failed" e.fields))
  | none =>
    match run.next w.startup with
    | (.done, startup) => (.go (.answer .done), { w with startup := startup })
    | (.call entry run, startup) =>
      let w := { w with startup := startup }.call ("startup " ++ entry.label)
      let due := w.now + entry.millis
      let w := if entry.millis = 0 then w else w.setTimer due scriptFiber
      (.go (.busy (.starting run (some (due, entry.error)))), w)

def moveDoing (doing : Doing) (w : World) : Next Progress × World :=
  let answer (a : Answer) (w : World) : Next Progress × World := (.go (.answer a), w)
  match doing with
  | .nothing | .leaving => (.wait (.busy doing), w)
  | .advancing due =>
    if due ≤ w.now then (.wait (.busy .settling), w) else (.wait (.busy doing), w)
  | .settling => if w.ready.isEmpty then answer .nothing w else (.wait (.busy .settling), w)
  | .draining run =>
    match w.moveDrain scriptFiber run with
    | (.next n, w) => (n.map fun r => .busy (.draining r), w)
    | (.finished, w) => answer .nothing w
    | (.panicked, w) => answer .panicked w
  | .serving run =>
    match w.moveServing scriptFiber run with
    | (.next n, w) => (n.map fun r => .busy (.serving r), w)
    | (.answered r, w) => answer (.response r) w
    | (.panicked, w) => answer .panicked w
  | .awaiting wait quiet =>
    match w.lookAt scriptFiber wait with
    | (some result, w) => answer (if quiet then .nothing else .flag result) w
    | (none, w) => (.wait (.busy doing), w)
  | .starting run entry => w.moveStartup run entry

end World

end Logbook.Rehearsal
