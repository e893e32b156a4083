import Logbook.CommandLine
import Logbook.Config.Load
import Logbook.Net.Listening
import Logbook.Startup
import Logbook.Text.Escaped

/-!
# Launching

A launch reads the command line and the configuration and then listens. Each of these can end it,
with a status and a text. The exporter of the metrics listens first; if it cannot, the launch goes
on without it.
-/

namespace Logbook.Service

structure Host where
  file : String → Config.File
  environment : Config.Environment

inductive Ending where
  | help
  | misused (fault : CommandLine.Fault)
  | misconfigured (error : Config.LoadError)
  | notStarted (error : Startup.StartError)

def configure (path : Option String) (host : Host) : Except Config.LoadError Config :=
  match path with
  | some path => Config.load (host.file path) host.environment
  | none => Config.parse "" host.environment

def prepare (arguments : List String) (host : Host) : Except Ending Config :=
  match CommandLine.read arguments with
  | .help => .error .help
  | .faulty fault => .error (.misused fault)
  | .run path => (configure path host).mapError .misconfigured

/-- The listener of the service is the only entry of its last phase. -/
def listenerError (message : String) : Ending := .notStarted ⟨.secondStart, 0, message⟩

/-- Adds the listeners of a configuration. An address that is none is left out: a configuration with
one is not accepted. -/
def listenAs (config : Config) (listeners : List Net.Endpoint) :
    Except Net.ListenError (List Net.Endpoint) :=
  let listeners :=
    match Net.Endpoint.read? config.observability.metricsAddress with
    | some e =>
      if config.observability.metricsEnabled then (Net.listen e listeners).toOption.getD listeners
      else listeners
    | none => listeners
  match Net.Endpoint.read? config.http.bindAddress with
  | some e => Net.listen e listeners
  | none => .ok listeners

/-- A launch on a host at whose endpoints others listen; the configuration of the service if it gets
to listen. -/
def launch (arguments : List String) (host : Host) (listeners : List Net.Endpoint) :
    Except Ending Config := do
  let config ← prepare arguments host
  let _ ← (listenAs config listeners).mapError fun e => listenerError e.message
  return config

namespace Ending

def status : Ending → Nat
  | .help => 0
  | .misused _ => 2
  | .misconfigured _ | .notStarted _ => 1

def kind? : Ending → Option String
  | .help | .misused _ => none
  | .misconfigured e => some e.kind
  | .notStarted _ => some "StartupError"

def parts (name : String) (fields : List (String × String)) : String :=
  name ++ " \x7b " ++
    String.intercalate ", " (fields.map fun (field, value) => field ++ ": " ++ value) ++ " \x7d"

def fileDetail : Config.FileProblem → String
  | .missing =>
    "(" ++ parts "Os" [("code", "2"), ("kind", "NotFound"),
      ("message", Escaped.quote "No such file or directory")] ++ ")"
  | .directory =>
    "(" ++ parts "Os" [("code", "21"), ("kind", "IsADirectory"),
      ("message", Escaped.quote "Is a directory")] ++ ")"
  | .notUtf8 =>
    "(" ++ parts "Error" [("kind", "InvalidData"),
      ("message", Escaped.quote Config.FileProblem.notUtf8.message)] ++ ")"

def loadErrorDetail : Config.LoadError → String
  | .file problem => "Io" ++ fileDetail problem
  | .parse misfit => "Parse(" ++ Escaped.quote (misfit.message?.getD "malformed document") ++ ")"
  | .variable name value =>
    parts "Env" [("name", Escaped.quote name), ("value", Escaped.quote value)]
  | .invalid violations =>
    "Validation([" ++ String.intercalate ", " (violations.map fun v =>
      parts "ValidationError"
        [("field", Escaped.quote v.field), ("message", Escaped.quote v.message)]) ++ "])"

def text : Ending → String
  | .help => CommandLine.helpText
  | .misused fault => fault.text
  | .misconfigured e => "Error: " ++ loadErrorDetail e ++ "\n"
  | .notStarted e =>
    "Error: " ++ parts "StartupError" [("phase", Escaped.quote e.phase.name),
      ("index", toString e.index), ("message", Escaped.quote e.message)] ++ "\n"

end Ending

end Logbook.Service
