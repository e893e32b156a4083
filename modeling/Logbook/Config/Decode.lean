import Logbook.Config.Datum
import Logbook.Config.Schema
import Logbook.Toml.Document

/-!
# Decoding configurations

A configuration from a TOML document or from a JSON value.
-/

namespace Logbook.Config

def shutdownFields : List (Field Shutdown) :=
  [⟨"timeout_secs", fun d s => (natural "u64" d).map fun n => { s with timeoutSecs := n }⟩,
    ⟨"delay_secs", fun d s => (optionalNatural "u64" d).map fun n => { s with delaySecs := n }⟩]

def traceFields (dialect : Dialect) : List (Field Trace) :=
  [⟨"masked_fields", fun d s => (texts d).map fun names => { s with maskedFields := names }⟩,
    ⟨"sink", fun d s =>
      (variant dialect [("stdout", SinkKind.stdout), ("tracing", .tracing)] d).map fun k =>
        { s with sink := k }⟩]

def executorFields : List (Field Executor) :=
  [⟨"pool_size", fun d s => (natural "usize" d).map fun n => { s with poolSize := n }⟩]

def loggingFields (dialect : Dialect) : List (Field Logging) :=
  [⟨"level", fun d s => (text d).map fun t => { s with level := t }⟩,
    ⟨"format", fun d s =>
      (variant dialect [("json", LogFormat.json), ("pretty", .pretty)] d).map fun f =>
        { s with format := f }⟩]

def observabilityFields : List (Field Observability) :=
  [⟨"metrics_enabled", fun d s => (boolean d).map fun b => { s with metricsEnabled := b }⟩,
    ⟨"metrics_address", fun d s => (text d).map fun t => { s with metricsAddress := t }⟩]

def httpFields : List (Field Http) :=
  [⟨"bind_address", fun d s => (text d).map fun t => { s with bindAddress := t }⟩]

def fields (dialect : Dialect) : List (Field Config) :=
  [⟨"shutdown", fun d c =>
      (readSection dialect "ShutdownConfig" shutdownFields d default.shutdown).map fun s =>
        { c with shutdown := s }⟩,
    ⟨"trace", fun d c =>
      (readSection dialect "TraceConfig" (traceFields dialect) d default.trace).map fun s =>
        { c with trace := s }⟩,
    ⟨"executor", fun d c =>
      (readSection dialect "ExecutorConfig" executorFields d default.executor).map fun s =>
        { c with executor := s }⟩,
    ⟨"logging", fun d c =>
      (readSection dialect "LoggingConfig" (loggingFields dialect) d default.logging).map fun s =>
        { c with logging := s }⟩,
    ⟨"observability", fun d c =>
      (readSection dialect "ObservabilityConfig" observabilityFields d
        default.observability).map fun s => { c with observability := s }⟩,
    ⟨"http", fun d c =>
      (readSection dialect "HttpConfig" httpFields d default.http).map fun s =>
        { c with http := s }⟩]

def decode (dialect : Dialect) (datum : Datum) : Except Misfit Config :=
  readSection dialect "AppConfig" (fields dialect) datum default

/-- A configuration from a TOML document. The whole document is read before any setting is. -/
def ofToml (document : String) : Except Misfit Config :=
  match Toml.Document.read? document.toList with
  | none => .error .malformed
  | some entries => decode .toml (.mapping (Datum.ofEntries entries))

def ofJson (value : Json) : Except Misfit Config := decode .json (Datum.ofJson value)

end Logbook.Config
