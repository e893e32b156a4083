import Logbook.KeyMap
import Logbook.Trace.Mask

/-!
# The scope of a unit of work

A scope carries the identifier and the action of one unit of work and collects its context, lists
of texts under a key, and its stats, one number under a key. Values put under a masked key are
masked as they are written. Work that is started elsewhere receives the `Link` of the scope only.
-/

namespace Logbook.Trace

structure Scope where
  id : String
  action : String
  context : KeyMap (List String)
  stats : KeyMap Float

/-- What a child keeps of its parent. -/
structure Link where
  id : String
  action : String
  deriving DecidableEq, Repr

def Link.hasRoot (l : Link) : Bool := !l.action.isEmpty

namespace Scope

def named (id action : String) : Scope := ⟨id, action, .empty, .empty⟩

def detached : Scope := named "" ""

instance : Inhabited Scope := ⟨detached⟩

def link (s : Scope) : Link := ⟨s.id, s.action⟩

/-- Appends values to those under `key`; also a put of no values makes the key known. -/
def put (masked : Mask.Registry) (key : String) (values : List String) (s : Scope) : Scope :=
  let values := if masked.isMasked key then values.map fun _ => Mask.mask else values
  { s with context := s.context.alter key fun old => old.getD [] ++ values }

/-- Sets a stat; the last write wins. -/
def setStat (key : String) (value : Float) (s : Scope) : Scope :=
  { s with stats := s.stats.insert key value }

/-- A stat, zero if it was never set. -/
def stat (s : Scope) (key : String) : Float := (s.stats.get? key).getD 0.0

def addStat (key : String) (delta : Float) (s : Scope) : Scope :=
  s.setStat key (s.stat key + delta)

def release (s : Scope) : Scope := named s.id s.action

/-- What a body does to the scope it is lent. A put finds the masked names of its own moment. -/
inductive Write where
  | put (masked : Mask.Registry) (key : String) (values : List String)
  | setStat (key : String) (value : Float)
  | addStat (key : String) (delta : Float)

def Write.apply : Write → Scope → Scope
  | .put masked key values, s => s.put masked key values
  | .setStat key value, s => s.setStat key value
  | .addStat key delta, s => s.addStat key delta

def writeAll (writes : List Write) (s : Scope) : Scope := writes.foldl (fun s w => w.apply s) s

/-- What may be done through a scope that is lent as a whole: a write, or another scope in its
place, which whatever else is done to it comes to. -/
inductive Edit where
  | write (w : Write)
  | replace (scope : Scope)

def Edit.apply : Edit → Scope → Scope
  | .write w, s => w.apply s
  | .replace scope, _ => scope

def editAll (edits : List Edit) (s : Scope) : Scope := edits.foldl (fun s e => e.apply s) s

theorem editAll_write (writes : List Write) (s : Scope) :
    s.editAll (writes.map .write) = s.writeAll writes := List.foldl_map

theorem id_writeAll {s : Scope} (writes : List Write) : (s.writeAll writes).id = s.id := by
  induction writes generalizing s with
  | nil => rfl
  | cons w writes ih =>
    refine (ih (s := w.apply s)).trans ?_
    cases w <;> rfl

theorem action_writeAll {s : Scope} (writes : List Write) :
    (s.writeAll writes).action = s.action := by
  induction writes generalizing s with
  | nil => rfl
  | cons w writes ih =>
    refine (ih (s := w.apply s)).trans ?_
    cases w <;> rfl

end Scope

end Logbook.Trace
