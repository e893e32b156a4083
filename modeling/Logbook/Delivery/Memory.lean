import Logbook.Diagnostic
import Logbook.Json.Reader

/-!
# Records in memory

A sink that keeps the lines it is given as JSON values, in order. A line that is no JSON text is
reported and dropped.
-/

namespace Logbook.Delivery

structure Memory where
  records : List Json

namespace Memory

def empty : Memory := ⟨[]⟩

def add (line : String) (m : Memory) : Memory × List Diagnostic :=
  match Json.read line.toList with
  | .ok value => (⟨m.records ++ [value]⟩, [])
  | .error e => (m, [.warning "Discarding unparsable record" [("error", e.message)]])

def find (action : String) (m : Memory) : List Json :=
  m.records.filter fun r => (r.member? "action").bind Json.string? = some action

end Memory

end Logbook.Delivery
