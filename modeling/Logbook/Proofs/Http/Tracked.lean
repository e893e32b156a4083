import Logbook.Http.Handoff
import Logbook.Proofs.Record.Ending

/-! A tracked request as a transition system. Its record goes between the slot and the handles that
handlers and the tasks they start take out of it. A move is one step under the lock of the slot, or
a write through a live handle; in which order they come is left open, also who makes them. -/

namespace Logbook.Http

/-- What a handle lets its owner do to the record. Contexts and stats are written through the scope,
which is given out as a whole. -/
inductive Write where
  | scope (e : Trace.Scope.Edit)
  | requestBody (text : String)
  | responseBody (text : String)

def Write.apply : Write → Record → Record
  | .scope e, r => { r with scope := e.apply r.scope }
  | .requestBody text, r => { r with requestBody := some text }
  | .responseBody text, r => { r with responseBody := some text }

/-- A live handle. Each extraction makes one with a name of its own. -/
structure Handle where
  name : Nat
  record : Record

inductive Emitter where
  | middleware
  | handle (name : Nat)
  deriving DecidableEq

/-- A record that has been completed, and by whom. -/
structure Issued where
  emitter : Emitter
  completed : Completed

/-- The handler runs, has ended with a reply, or its reply has been answered. -/
inductive Phase where
  | running
  | finished (reply : Reply)
  | answered (reply : Reply)

structure Tracked where
  slot : Handoff
  handles : List Handle
  /-- The name of the next handle. -/
  fresh : Nat
  phase : Phase
  issued : List Issued

inductive Move where
  | extract
  | write (name : Nat) (w : Write)
  | drop (name : Nat) (o : Occasion)
  | finish (reply : Reply)
  | complete (o : Occasion)

/-- What a move writes into the record. -/
def Move.apply : Move → Record → Record
  | .write _ w, r => w.apply r
  | _, r => r

/-- The record with all writes of a run, in their order. -/
def written (moves : List Move) (r : Record) : Record := moves.foldl (fun r m => m.apply r) r

namespace Tracked

/-- A request that has been admitted. -/
def admitted (r : Record) : Tracked := ⟨.holding r, [], 0, .running, []⟩

/-- Takes the record out of the slot; refused if it is not there. -/
def extract? (s : Tracked) : Option Tracked :=
  s.slot.take?.map fun (r, slot) =>
    { s with slot := slot, handles := s.handles ++ [⟨s.fresh, r⟩], fresh := s.fresh + 1 }

/-- The record of a live handle. -/
def record? (name : Nat) (s : Tracked) : Option Record :=
  (s.handles.find? fun h => h.name = name).map (·.record)

def issue (emitter : Emitter) (completed : Option Completed) (s : Tracked) : Tracked :=
  { s with issued := s.issued ++ (completed.map fun c => ⟨emitter, c⟩).toList }

/-- One move, if it is possible. A refused extraction changes nothing; writes and drops need a live
handle; a handler ends once, and is answered once after that. -/
def step : Move → Tracked → Option Tracked
  | .extract, s => some (s.extract?.getD s)
  | .write name w, s => (s.record? name).map fun _ =>
    { s with handles := s.handles.map fun h =>
        if h.name = name then { h with record := w.apply h.record } else h }
  | .drop name o, s => (s.record? name).map fun r =>
    let (slot, completed) := s.slot.giveBack o.masked o.trace o.now r
    { s with slot := slot, handles := s.handles.filter fun h => h.name ≠ name }.issue
      (.handle name) completed
  | .finish reply, s =>
    match s.phase with
    | .running => some { s with phase := .finished reply }
    | _ => none
  | .complete o, s =>
    match s.phase with
    | .finished reply =>
      let (_, slot, completed) := s.slot.answer o.masked o.trace o.now reply
      some ({ s with slot := slot, phase := .answered reply }.issue .middleware completed)
    | _ => none

def run : List Move → Tracked → Option Tracked
  | [], s => some s
  | m :: moves, s => (step m s).bind (run moves)

end Tracked

/-- Where a record can be. -/
inductive Place where
  | slot (r : Record)
  | handle (name : Nat) (r : Record)
  | emitted (emitter : Emitter) (completed : Completed)

end Logbook.Http
