/-!
# Configuration

The settings of the service in six sections. Every setting has a default.
-/

namespace Logbook

namespace Config

/-- How long a drain may take, and how long it waits before it begins. -/
structure Shutdown where
  timeoutSecs : Nat
  delaySecs : Option Nat
  deriving DecidableEq, Repr

/-- Where records go: to the standard output by a writer of its own, or among the diagnostics. -/
inductive SinkKind where
  | stdout
  | tracing
  deriving DecidableEq, Repr

structure Trace where
  maskedFields : List String
  sink : SinkKind
  deriving DecidableEq, Repr

structure Executor where
  poolSize : Nat
  deriving DecidableEq, Repr

inductive LogFormat where
  | json
  | pretty
  deriving DecidableEq, Repr

structure Logging where
  level : String
  format : LogFormat
  deriving DecidableEq, Repr

structure Observability where
  metricsEnabled : Bool
  metricsAddress : String
  deriving DecidableEq, Repr

structure Http where
  bindAddress : String
  deriving DecidableEq, Repr

end Config

structure Config where
  shutdown : Config.Shutdown
  trace : Config.Trace
  executor : Config.Executor
  logging : Config.Logging
  observability : Config.Observability
  http : Config.Http
  deriving DecidableEq, Repr

namespace Config

def SinkKind.name : SinkKind → String
  | .stdout => "stdout"
  | .tracing => "tracing"

def LogFormat.name : LogFormat → String
  | .json => "json"
  | .pretty => "pretty"

def default : Config where
  shutdown := ⟨25, none⟩
  trace := ⟨[], .stdout⟩
  executor := ⟨4⟩
  logging := ⟨"info", .json⟩
  observability := ⟨false, "0.0.0.0:9090"⟩
  http := ⟨"0.0.0.0:8080"⟩

end Config

end Logbook
