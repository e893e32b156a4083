import Logbook.Diagnostic.Filter
import Logbook.Service
import Logbook.Service.Launch
import Std.Async
import Std.Http

/-!
# The program

Reads the command line, loads the configuration, listens, answers requests until the process is told
to end, and drains. All decisions are those of `Service`; here they meet the clock, the files and
the network.
-/

namespace Logbook.Program

open Std.Async Std.Http

/-- What the running program shares between its requests. -/
structure Live where
  service : IO.Ref Service
  filter : Diagnostic.Filter
  config : Config

/-- The name of the program among the sources of diagnostics. -/
def eventTarget : String := "actionkit"

def recordTarget : String := "action_log"

def readClocks : IO Moment := do
  let millis := (← Std.Time.Timestamp.now).toMillisecondsSinceUnixEpoch.val.toNat
  return ⟨millis, ← IO.monoNanosNow⟩

namespace Live

/-- Writes a diagnostic to the standard output if the filter lets it through. -/
def report (live : Live) (target : String) (d : Diagnostic) : IO Unit := do
  if live.filter.admitsEvent target d.level then
    let now ← readClocks
    let write := match live.config.logging.format with
      | .json => Diagnostic.jsonLine
      | .pretty => Diagnostic.plainLine
    IO.println (write now.millis target d)

def inform (live : Live) (message : String) (fields : List (String × String)) : IO Unit :=
  live.report eventTarget ⟨.info, message, fields⟩

def sendOut (live : Live) : Service.Output → IO Unit
  | .notice d => live.report eventTarget d
  | .record line =>
    match live.config.trace.sink with
    | .stdout => IO.println line
    | .tracing => live.report recordTarget ⟨.info, line, []⟩

/-- Makes one move of the service and sends out what it leaves. -/
def perform {α : Type} (live : Live) (action : Service.Action α) : IO α := do
  let (result, outputs) ← live.service.modifyGet fun s =>
    let ((result, outputs), s) := (do
      let result ← action
      return (result, ← Service.collect)).run s
    ((result, outputs), s)
  outputs.forM live.sendOut
  (← IO.getStdout).flush
  return result

end Live

/-! ## Requests -/

def addressOf : Std.Net.SocketAddress → Net.Address
  | .v4 a => .v4 (a.addr.octets.toList.map UInt8.toNat)
  | .v6 a => .v6 (a.addr.segments.toList.map UInt16.toNat)

def requestOf (head : Std.Http.Request.Head) (peer : Option Std.Net.SocketAddress) :
    Http.Request where
  method := toString head.method
  uri := toString head.uri
  headers := head.headers.toList.map fun (name, value) => (name.value, value.value)
  peer := peer.map addressOf

def statusOf (code : Nat) : Status :=
  match code with
  | 200 => .ok
  | 400 => .badRequest
  | 404 => .notFound
  | 405 => .methodNotAllowed
  | 413 => .payloadTooLarge
  | 503 => .serviceUnavailable
  | _ => .internalServerError

/-- Reads a body to its end; what is behind the limit is not kept. -/
def readBody (stream : Body.Stream) : Async ByteArray := do
  let mut bytes := ByteArray.empty
  let mut reading := true
  while reading do
    match ← stream.recv with
    | some chunk => if bytes.size ≤ Service.bodyLimit then bytes := bytes ++ chunk.data
    | none => reading := false
  return bytes

def Live.answer (live : Live) (request : Std.Http.Request Body.Stream) :
    ContextAsync (Std.Http.Response Body.Full) := do
  let body ← readBody request.body
  let peer := (request.extensions.get Server.RemoteAddr).map (·.addr)
  let now ← (readClocks : IO Moment)
  let response ←
    (live.perform (Service.respond now (requestOf request.line peer) body) : IO Http.Response)
  (Response.withStatus (statusOf response.status)).text response.body

instance : Server.Handler Live where
  ResponseBody := Body.Full
  onRequest := Live.answer

/-- Answers every request with the samples of the metrics. -/
structure Exporter where
  live : Live

def Exporter.answer (exporter : Exporter) : ContextAsync (Std.Http.Response Body.Full) := do
  let service ← (exporter.live.service.get : IO Service)
  Response.ok.text (String.join (service.metrics.lines.map fun line => line ++ "\n"))

instance : Server.Handler Exporter where
  ResponseBody := Body.Full
  onRequest := fun exporter _ => exporter.answer

/-! ## Running -/

def socketAddress (e : Net.Endpoint) : Std.Net.SocketAddress :=
  let part (parts : List Nat) (i : Nat) : Nat := parts.getD i 0
  match e.address with
  | .v4 octets =>
    let p (i : Nat) : UInt8 := (part octets i).toUInt8
    .v4 ⟨.ofParts (p 0) (p 1) (p 2) (p 3), e.port.toUInt16⟩
  | .v6 groups =>
    let p (i : Nat) : UInt16 := (part groups i).toUInt16
    .v6 ⟨.ofParts (p 0) (p 1) (p 2) (p 3) (p 4) (p 5) (p 6) (p 7), e.port.toUInt16⟩

def awaitSignal : Async String := do
  let terminate ← (Signal.Waiter.mk .sigterm false : IO Signal.Waiter)
  let interrupt ← (Signal.Waiter.mk .sigint false : IO Signal.Waiter)
  Selectable.one #[
    .case terminate.selector fun _ => return "SIGTERM",
    .case interrupt.selector fun _ => return "SIGINT"]

/-- Starts the exporter of the metrics; the service does without it if it cannot listen. -/
def Live.export (live : Live) : IO Unit := do
  match Net.Endpoint.read? live.config.observability.metricsAddress with
  | none => pure ()
  | some e =>
    let address := live.config.observability.metricsAddress
    try
      let _ ← (Server.serve (socketAddress e) (Exporter.mk live)).block
      live.inform "Metrics exporter listening" [("address", address)]
    catch error =>
      live.report eventTarget (.error "Failed to install metrics exporter"
        [("address", address), ("error", toString error)])

/-- Drains the service when the signal has come; the status of the process. -/
def Live.drain (live : Live) (server : Server) (signal : String) : IO UInt32 := do
  live.perform (Service.beginDrain signal)
  match live.config.shutdown.delaySecs with
  | some seconds => IO.sleep (seconds * 1000).toUInt32
  | none => pure ()
  let now ← readClocks
  let inTime ← live.perform (Service.drain (now.nanos / 1000000) now)
  if inTime then
    server.shutdownAndWait.block
    return 0
  else return 101

def run (config : Config) : IO UInt32 := do
  let machine ← IO.rand 0 (Nat.pow 2 24 - 1)
  let counter ← IO.rand 0 (Nat.pow 2 32 - 1)
  let filter := ((← IO.getEnv "RUST_LOG").bind Diagnostic.Filter.read?).getD
    (.ofLevel config.logging.level)
  let service ← IO.mkRef (Service.ofConfig config machine counter.toUInt32)
  let live : Live := ⟨service, filter, config⟩
  live.inform "actionkit starting" [("version", "0.1.0")]
  if config.observability.metricsEnabled then live.export
  live.inform "Executor started"
    [("executor", Service.poolName), ("size", toString config.executor.poolSize)]
  for (phase, entries) in [(Startup.Phase.initialization, 0), (.start, 0), (.secondStart, 1)] do
    live.inform "Startup phase started" [("phase", phase.name), ("entries", toString entries)]
  match Net.Endpoint.read? config.http.bindAddress with
  | none => return 1
  | some e =>
    match ← (Server.serve (socketAddress e) live).block.toBaseIO with
    | .error error =>
      let ending := Service.listenerError (toString error)
      IO.eprint ending.text
      return ending.status.toUInt32
    | .ok server =>
      live.inform "HTTP server starting" [("address", config.http.bindAddress)]
      live.inform "actionkit started" [("timeout_secs", toString config.shutdown.timeoutSecs)]
      let signal ← awaitSignal.block
      live.drain server signal

def readFile (path : String) : IO Config.File := do
  match ← (IO.FS.readBinFile path).toBaseIO with
  | .ok bytes => return .bytes bytes.toList
  | .error (.noFileOrDirectory ..) => return .missing
  | .error _ => return .directory

/-- The host of this process, with the file of the command line if one is given. -/
def host (arguments : List String) : IO Service.Host := do
  let file ← match CommandLine.read arguments with
    | .run (some path) => readFile path
    | _ => pure .missing
  let timeout ← IO.getEnv Config.timeoutVariable
  let delay ← IO.getEnv Config.delayVariable
  return {
    file := fun _ => file
    environment := fun name =>
      if name = Config.timeoutVariable then timeout
      else if name = Config.delayVariable then delay else none }

end Logbook.Program

open Logbook in
def main (arguments : List String) : IO UInt32 := do
  match Service.prepare arguments (← Program.host arguments) with
  | .ok config => Program.run config
  | .error ending =>
    if ending.status = 0 then IO.print ending.text else IO.eprint ending.text
    return ending.status.toUInt32
