import Logbook.Number.Decimal
import Logbook.Record.Outcome
import Logbook.Work.Pool

/-!
# Metrics

Counters and gauges, each with one label. A counter is a whole number of 64 bits, a gauge a double.
`lines` writes every sample as a line of text.
-/

namespace Logbook

namespace Metrics

/-- A sample: its name, its label and the value of the label. -/
structure Key where
  name : String
  label : String
  value : String
  deriving DecidableEq, Repr

inductive Value where
  | counter (n : Nat)
  | gauge (x : Float)

end Metrics

structure Metrics where
  samples : List (Metrics.Key × Metrics.Value)

namespace Metrics

def empty : Metrics := ⟨[]⟩

def alter (key : Key) (f : Option Value → Value) : List (Key × Value) → List (Key × Value)
  | [] => [(key, f none)]
  | (k, v) :: rest => if k = key then (k, f (some v)) :: rest else (k, v) :: alter key f rest

/-- Raises a counter; also by nothing, which makes it known. -/
def count (key : Key) (n : Nat) (m : Metrics) : Metrics :=
  ⟨alter key (fun
    | some (.counter old) => .counter ((old + n) % Nat.pow 2 64)
    | _ => .counter (n % Nat.pow 2 64)) m.samples⟩

def setGauge (key : Key) (n : Nat) (m : Metrics) : Metrics :=
  ⟨alter key (fun _ => .gauge n.toUInt64.toFloat) m.samples⟩

def recordEmitted (outcome : Outcome) (m : Metrics) : Metrics :=
  m.count ⟨"action_log_emitted_total", "result", outcome.name⟩ 1

def recordLoad (pool : String) (load : Work.Load) (m : Metrics) : Metrics :=
  ((m.setGauge ⟨"executor_running", "executor", pool⟩ load.running).setGauge
    ⟨"executor_free", "executor", pool⟩ load.free).setGauge
    ⟨"executor_waiting", "executor", pool⟩ load.waiting

def recordStage (stage hooks : Nat) (m : Metrics) : Metrics :=
  m.count ⟨"shutdown_stage_hooks_total", "stage", toString stage⟩ hooks

/-! ## Text -/

/-- The value of a label between its quotes. A backslash stands for itself, alone or doubled, unless
a quote follows, which is escaped in any case; `held` tells that a backslash has been read and not
yet written. -/
def labelText (held : Bool) : List Char → List Char
  | [] => if held then ['\\', '\\'] else []
  | c :: text =>
    if c = '\n' then '\\' :: 'n' :: labelText held text
    else if c = '"' then '\\' :: '"' :: labelText false text
    else if c = '\\' then
      if held then '\\' :: '\\' :: labelText false text else labelText true text
    else if held then '\\' :: '\\' :: c :: labelText false text
    else c :: labelText false text

def Key.text (key : Key) : List Char :=
  key.name.toList ++ '\x7b' :: key.label.toList ++ '=' :: '"' ::
    labelText false key.value.toList ++ ['"', '\x7d']

def Value.text : Value → List Char
  | .counter n => Nat.toDigits 10 n
  | .gauge x => Decimal.render Decimal.sample x

/-- The samples as texts; of samples with one text only the last stays. -/
def texts : List (Key × Value) → List (List Char × List Char)
  | [] => []
  | (k, v) :: rest =>
    let texts := texts rest
    if texts.any (·.1 = k.text) then texts else (k.text, v.text) :: texts

def lines (m : Metrics) : List String :=
  ((texts m.samples).map fun (key, value) => String.ofList (key ++ ' ' :: value)).mergeSort
    fun a b => !(b < a)

end Metrics

end Logbook
