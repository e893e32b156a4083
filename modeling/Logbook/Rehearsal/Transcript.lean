import Logbook.Rehearsal.Schedule
import Logbook.Text.Lossy
import Logbook.Time.Date

/-!
# Transcripts

What a rehearsal shows when it is over. Identifiers, dates and durations differ from one run to the
next, so they stand as labels: an identifier as the handle of its log, else as the action of the
record that was emitted with it, else as itself if the script gave it.
-/

namespace Logbook.Rehearsal

structure Transcript where
  /-- The answers to the orders, each with its time. -/
  steps : List (Nat × Json)
  records : List (Nat × String)
  calls : List String
  events : List (Nat × String)
  responses : List (Nat × String)
  log : List String
  metrics : List String
  shipped : Option (List String)
  memory : Option (List String)
  found : Option Nat

namespace Transcript

/-- The action of each line that has an identifier. -/
def actionsOf (lines : List String) : List (String × String) :=
  lines.filterMap fun line =>
    match Json.read line.toList with
    | .ok j =>
      match (j.member? "id").bind Json.string?, (j.member? "action").bind Json.string? with
      | some id, some action => some (id, action)
      | _, _ => none
    | .error _ => none

def label (w : World) (actions : List (String × String)) (id : String) : String :=
  match World.lookup id w.handles, World.lookup id actions with
  | some handle, _ => "@" ++ handle
  | none, some action => "@" ++ action
  | none, none => if id ∈ w.givenIds then id else "@?"

/-- What stands in place of a member that differs between runs. -/
def memberLabel? (label : String → String) (key : String) (value : Json) : Option Json :=
  match key, value with
  | "id", .string id | "ref_id", .string id => some (.string (label id))
  | "date", .string date => if Date.hasForm date then some (.string "DATE") else none
  | "elapsed", .integer n => if n = 0 then none else some (.string "ELAPSED")
  | _, _ => none

def between (a b : Json.Cursor) : List Char := a.rest.take (a.rest.length - b.rest.length)

/-- The members of an object from the place before a key on, with labels; all else stays as it
stands in the text. -/
def relabelMembers (label : String → String) : Nat → Json.Cursor → List Char
  | 0, c => c.rest
  | fuel + 1, c =>
    match Json.readString c.skipSpace.advance with
    | .error _ => c.rest
    | .ok (key, colon) =>
      let v := colon.skipSpace.advance.skipSpace
      match Json.readValue (2 * v.rest.length + 2) Json.depthLimit v with
      | .error _ => c.rest
      | .ok (value, behind) =>
        let written := match memberLabel? label key value with
          | some j => j.render
          | none => between v behind
        let next := behind.skipSpace.advance
        between c v ++ written ++
          if behind.skipSpace.next? = some ',' then
            between behind next ++ relabelMembers label fuel next
          else behind.rest

/-- A line with labels, if it is an object with an identifier and a date. -/
def relabel (label : String → String) (line : String) : String :=
  match Json.read line.toList with
  | .ok j =>
    match (j.member? "id").bind Json.string?, (j.member? "date").bind Json.string? with
    | some _, some _ =>
      let start := (Json.Cursor.start line.toList).skipSpace
      String.ofList (between (Json.Cursor.start line.toList) start.advance ++
        relabelMembers label line.length start.advance)
    | _, _ => line
  | .error _ => line

def byTime (entries : List (Nat × String)) : List (Nat × String) :=
  entries.mergeSort fun a b => a.1 < b.1 ∨ (a.1 = b.1 ∧ !(b.2 < a.2))

def stamped (time : Nat) (text : String) : String := toString time ++ " " ++ text

def splitLines (bytes : List UInt8) : List String :=
  (bytes.splitOnP (· = 10)).map Lossy.decode

def ofStage (script : Script) (s : Stage) : Transcript :=
  let w := s.world
  let actions := actionsOf (w.seen.records.map (·.2))
  let label := label w actions
  let relabel := relabel label
  let relabelled (entries : List (Nat × String)) := entries.map fun (t, line) => (t, relabel line)
  let inMemory := w.sink = .memory
  { steps := s.answers.reverse.map fun (t, a) => (t, a.toJson label relabel)
    records := byTime (relabelled w.seen.records)
    calls := w.seen.calls.reverse.map fun (t, text) => stamped t text
    events := byTime w.seen.events
    responses := byTime (w.seen.responses.map fun (t, r) => (t, (Answer.responseJson r).text))
    log := (byTime (w.seen.notices.map (fun (t, n) => (t, n.text)) ++
        (relabelled w.seen.traced).map fun (t, line) => (t, "action_log " ++ line))).map
      fun (t, text) => stamped t text
    metrics := w.abandon.metrics.lines
    shipped := if w.sink = .shipper then
        some ((splitLines w.shipper.written).map relabel) else none
    memory := if inMemory then
        some (w.memory.records.map fun r => relabel r.text) else none
    found := if inMemory then some (w.memory.find script.find).length else none }

end Transcript

def transcript (script : Script) : Transcript := .ofStage script (play script)

end Logbook.Rehearsal
