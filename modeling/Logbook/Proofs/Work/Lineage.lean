import Logbook.Proofs.Record.Logs
import Logbook.Proofs.Work.Unit

/-! Units of work that start each other. A scope lends its link to what is started from it, at that
moment; a unit begins its record later, from the link it was lent. Any number of logs and units, of
any depth, are changed and run in any order. A node is known by its place among all that were
started. The body of a unit writes values and stats; of the edits of a scope (`Trace.Scope.Edit`) it
makes no other, so that its record stays the one that was begun. -/

namespace Logbook.Work

/-- What a failure writes into the scope of its unit. -/
def Ending.writes (masked : Trace.Mask.Registry) (e : Ending) : List Trace.Scope.Write :=
  match e.failure? with
  | none => []
  | some f => Record.Change.writes (.fault masked f "")

variable {masked : Trace.Mask.Registry} {trace : String} {now : Moment} {e : Ending}

theorem scope_ended (r : Record) :
    (e.ended masked trace now r).scope = r.scope.writeAll (e.writes masked) := by
  cases hfailure : e.failure? with
  | none => rw [ended_of_none hfailure, Record.finish_eq, Ending.writes, hfailure]; rfl
  | some f =>
    rw [ended_of_some hfailure, Record.finish_eq, Ending.writes, hfailure]
    cases f <;> rfl

namespace Lineage

/-- Where something was started: from the scope of a node or from one that belongs to none, with the
link of that scope at that moment. -/
structure Origin where
  parent : Option Nat
  link : Trace.Link
  action : String
  actionType : String

/-- A body that has begun: what it found at its begin and what it wrote, with its record. -/
structure Body where
  id : String
  masked : Trace.Mask.Registry
  now : Moment
  writes : List Trace.Scope.Write
  record : Record

/-- A link is kept until a log is begun from it by hand. A unit waits, is under way and closes, or
its body is lost: it panicked while it was made ready, or nobody runs it to its end. -/
inductive Stage where
  | linked
  | log (l : Record.Log)
  | waiting
  | underway (b : Body)
  | closed (b : Body) (e : Ending) (o : Occasion) (left : Closed)
  | lost (b : Body)

structure Node where
  origin : Origin
  stage : Stage

namespace Stage

def record? : Stage → Option Record
  | linked | waiting => none
  | log l => some l.record
  | underway b | lost b => some b.record
  | closed _ _ _ left => some left.record

/-- The scope that others may be started from: that of a log at any time, that of a unit while its
body runs. -/
def scope? : Stage → Option Trace.Scope
  | log l => some l.record.scope
  | underway b => some b.record.scope
  | linked | waiting | closed .. | lost _ => none

def isUnit : Stage → Bool
  | linked | log _ => false
  | waiting | underway _ | closed .. | lost _ => true

def emitted : Stage → List Record.Emission
  | log l => l.emitted
  | closed _ _ _ left => left.emission.toList
  | linked | waiting | underway _ | lost _ => []

end Stage

variable {origin : Origin} {s t : Stage} {nodes final : List Node} {i j : Nat} {node : Node}
  {r : Record} {b : Body}

def Body.begin (o : Origin) (id : String) (masked : Trace.Mask.Registry) (now : Moment) : Body where
  id := id
  masked := masked
  now := now
  writes := []
  record := Record.startChild masked o.link id now o.action o.actionType

def Body.write (w : Trace.Scope.Write) (b : Body) : Body :=
  { b with writes := b.writes ++ [w], record := { b.record with scope := w.apply b.record.scope } }

def Body.close (e : Ending) (o : Occasion) (b : Body) : Closed :=
  Work.close o.masked o.trace o.now e b.record

/-- What happens to one node. A record is begun from the link of the origin. -/
inductive Move (origin : Origin) : Stage → Stage → Prop where
  | hold (masked : Trace.Mask.Registry) (id : String) (now : Moment) : Move origin .linked (.log
      ⟨_, .child masked origin.link id now origin.action origin.actionType, []⟩)
  | change {l : Record.Log} (c : Record.Change) : Move origin (.log l) (.log (l.change c))
  | begin (id : String) (masked : Trace.Mask.Registry) (now : Moment) :
      Move origin .waiting (.underway (.begin origin id masked now))
  | write {b : Body} (w : Trace.Scope.Write) : Move origin (.underway b) (.underway (b.write w))
  | close {b : Body} (e : Ending) (o : Occasion) :
      Move origin (.underway b) (.closed b e o (b.close e o))
  | lose {b : Body} : Move origin (.underway b) (.lost b)

def recordAt (nodes : List Node) (i : Nat) : Option Record := nodes[i]?.bind (·.stage.record?)

/-- The scope that a place lends: of the node with this number, or one that belongs to none. -/
def lent (nodes : List Node) : Option Nat → Option Trace.Scope
  | none => some .detached
  | some i => nodes[i]?.bind (·.stage.scope?)

inductive Step (nodes : List Node) : List Node → Prop where
  | link {parent : Option Nat} {scope : Trace.Scope} (action actionType : String)
      (h : lent nodes parent = some scope) :
      Step nodes (nodes ++ [⟨⟨parent, scope.link, action, actionType⟩, .linked⟩])
  | start {parent : Option Nat} {scope : Trace.Scope} (action actionType : String)
      (h : lent nodes parent = some scope) :
      Step nodes (nodes ++ [⟨⟨parent, scope.link, action, actionType⟩, .waiting⟩])
  | move {i : Nat} {origin : Origin} {s t : Stage} (h : nodes[i]? = some ⟨origin, s⟩)
      (move : Move origin s t) : Step nodes (nodes.set i ⟨origin, t⟩)

inductive Run (nodes : List Node) : List Node → Prop where
  | refl : Run nodes nodes
  | step {mid final : List Node} (H : Run nodes mid) (h : Step mid final) : Run nodes final

def Reachable (nodes : List Node) : Prop := Run [] nodes

theorem Run.trans {mid : List Node} (H : Run nodes mid) (H' : Run mid final) : Run nodes final := by
  induction H' with
  | refl => exact H
  | step _ h ih => exact .step ih h

/-! ## One node -/

/-- What a node has done, as it was done alone. -/
def Origin.Alone (o : Origin) : Stage → Prop
  | .linked | .waiting => True
  | .log l => ∃ masked id now,
      l.begun = Record.startChild masked o.link id now o.action o.actionType
  | .underway b | .lost b =>
    b.record = Work.underway b.masked o.link b.id b.now o.action o.actionType
      (b.writes.map .write)
  | .closed b e o' left =>
    b.record = Work.underway b.masked o.link b.id b.now o.action o.actionType
      (b.writes.map .write) ∧ left = b.close e o'

theorem Move.alone (h : Move origin s t) (H : origin.Alone s) : origin.Alone t := by
  cases h with
  | hold masked id now => exact ⟨masked, id, now, rfl⟩
  | change c => exact H
  | begin => rfl
  | @write b w =>
    change (b.write w).record = _
    simp only [Body.write, show b.record = _ from H, Work.underway, Trace.Scope.editAll_write,
      Trace.Scope.writeAll_append]
    rfl
  | close e o => exact ⟨H, rfl⟩
  | lose => exact H

theorem id_close (e : Ending) (o : Occasion) (h : b.record.emitted = false) :
    (b.close e o).record.id = b.record.id := by
  rw [Body.close, close_eq h]
  exact keeps_ended.id

theorem refId_close (e : Ending) (o : Occasion) (h : b.record.emitted = false) :
    (b.close e o).record.refId = b.record.refId := by
  rw [Body.close, close_eq h]
  exact keeps_ended.refId

/-- A record refers to what its link names. -/
theorem Origin.Alone.refId (H : origin.Alone s) (h : s.record? = some r) :
    r.refId = if origin.link.hasRoot then some origin.link.id else none := by
  cases s with
  | linked | waiting => cases h
  | log l =>
    obtain ⟨masked, id, now, hbegun⟩ := H
    cases h
    rw [l.keeping.refId, hbegun]
    rfl
  | underway b | lost b =>
    cases h
    rw [show b.record = _ from H]
    rfl
  | closed b e o left =>
    obtain ⟨hb, rfl⟩ := H
    cases h
    rw [refId_close e o (hb ▸ rfl), hb]
    rfl

/-- A record that was begun stays, under its identity. -/
theorem Move.keeps_id (h : Move origin s t) (H : origin.Alone s) (hr : s.record? = some r) :
    ∃ r', t.record? = some r' ∧ r'.id = r.id := by
  cases h with
  | hold | begin => cases hr
  | @change l c =>
    cases hr
    exact ⟨_, rfl, (l.change c).keeping.id.trans l.keeping.id.symm⟩
  | write w =>
    cases hr
    refine ⟨_, rfl, ?_⟩
    cases w <;> rfl
  | @close b e o =>
    cases hr
    exact ⟨_, rfl, id_close e o ((show b.record = _ from H) ▸ rfl)⟩
  | lose => exact ⟨r, hr, rfl⟩

/-! ## All nodes -/

/-- What is true of all nodes at any time. A node was started from one before it, whose record has
the identity that the link names. -/
structure Sound (nodes : List Node) : Prop where
  alone : ∀ (i : Nat) (node : Node), nodes[i]? = some node → node.origin.Alone node.stage
  detached : ∀ (i : Nat) (node : Node), nodes[i]? = some node → node.origin.parent = none →
    node.origin.link = Trace.Scope.detached.link
  parent : ∀ (i : Nat) (node : Node) (j : Nat), nodes[i]? = some node →
    node.origin.parent = some j →
      j < i ∧ ∃ r, recordAt nodes j = some r ∧ r.id = node.origin.link.id

/-- Who has a scope to lend has a record. -/
theorem recordAt_of_lent {scope : Trace.Scope} (h : lent nodes (some i) = some scope) :
    ∃ r, recordAt nodes i = some r ∧ r.scope = scope := by
  obtain ⟨node, hnode, hscope⟩ := Option.bind_eq_some_iff.mp h
  obtain ⟨origin, s⟩ := node
  rw [recordAt, hnode]
  cases s with
  | log l => exact ⟨l.record, rfl, Option.some.inj hscope⟩
  | underway b => exact ⟨b.record, rfl, Option.some.inj hscope⟩
  | linked | waiting | closed | lost => cases hscope

theorem lt_of_recordAt (h : recordAt nodes i = some r) : i < nodes.length := by
  obtain ⟨node, hnode, -⟩ := Option.bind_eq_some_iff.mp h
  exact (List.getElem?_eq_some_iff.mp hnode).1

theorem recordAt_append (h : recordAt nodes i = some r) (node : Node) :
    recordAt (nodes ++ [node]) i = some r := by
  rw [recordAt, List.getElem?_append_left (lt_of_recordAt h)]
  exact h

theorem getElem?_concat {new : Node} (h : (nodes ++ [new])[i]? = some node) :
    nodes[i]? = some node ∨ i = nodes.length ∧ node = new := by
  rw [List.getElem?_append] at h
  split at h
  · exact .inl h
  · next hle =>
    obtain ⟨hzero, hnode⟩ := List.getElem?_eq_some_iff.mp h
    rw [List.getElem_singleton] at hnode
    rw [List.length_singleton] at hzero
    exact .inr ⟨by omega, hnode.symm⟩

theorem Sound.nil : Sound [] where
  alone i node h := by rw [List.getElem?_nil] at h; cases h
  detached i node h := by rw [List.getElem?_nil] at h; cases h
  parent i node j h := by rw [List.getElem?_nil] at h; cases h

theorem Sound.append {parent : Option Nat} {scope : Trace.Scope} {action actionType : String}
    (H : Sound nodes) (h : lent nodes parent = some scope)
    (halone : Origin.Alone ⟨parent, scope.link, action, actionType⟩ s) :
    Sound (nodes ++ [⟨⟨parent, scope.link, action, actionType⟩, s⟩]) where
  alone i node hnode := by
    obtain hold | ⟨-, rfl⟩ := getElem?_concat hnode
    · exact H.alone i node hold
    · exact halone
  detached i node hnode hparent := by
    obtain hold | ⟨-, rfl⟩ := getElem?_concat hnode
    · exact H.detached i node hold hparent
    · cases show parent = none from hparent
      cases h
      rfl
  parent i node j hnode hparent := by
    obtain hold | ⟨rfl, rfl⟩ := getElem?_concat hnode
    · obtain ⟨hlt, r, hr, hid⟩ := H.parent i node j hold hparent
      exact ⟨hlt, r, recordAt_append hr _, hid⟩
    · cases show parent = some j from hparent
      obtain ⟨r, hr, rfl⟩ := recordAt_of_lent h
      exact ⟨lt_of_recordAt hr, r, recordAt_append hr _, rfl⟩

/-- After a move another node is the same, and the moved one has the same origin. -/
theorem getElem?_move (h : nodes[i]? = some ⟨origin, s⟩)
    (hnode : (nodes.set i ⟨origin, t⟩)[j]? = some node) :
    nodes[j]? = some node ∨ j = i ∧ node = ⟨origin, t⟩ := by
  rw [List.getElem?_set] at hnode
  split at hnode
  · next heq =>
    rw [if_pos (List.getElem?_eq_some_iff.mp h).1] at hnode
    exact .inr ⟨heq.symm, (Option.some.inj hnode).symm⟩
  · exact .inl hnode

theorem recordAt_move (H : Sound nodes) (h : nodes[i]? = some ⟨origin, s⟩) (move : Move origin s t)
    (hr : recordAt nodes j = some r) :
    ∃ r', recordAt (nodes.set i ⟨origin, t⟩) j = some r' ∧ r'.id = r.id := by
  rw [recordAt, List.getElem?_set]
  split
  · next heq =>
    subst heq
    rw [if_pos (List.getElem?_eq_some_iff.mp h).1]
    rw [recordAt, h] at hr
    exact move.keeps_id (H.alone i _ h) hr
  · exact ⟨r, hr, rfl⟩

theorem Sound.move (H : Sound nodes) (h : nodes[i]? = some ⟨origin, s⟩) (move : Move origin s t) :
    Sound (nodes.set i ⟨origin, t⟩) where
  alone j node hnode := by
    obtain hold | ⟨-, rfl⟩ := getElem?_move h hnode
    · exact H.alone j node hold
    · exact move.alone (H.alone i _ h)
  detached j node hnode hparent := by
    obtain hold | ⟨-, rfl⟩ := getElem?_move h hnode
    · exact H.detached j node hold hparent
    · exact H.detached i ⟨origin, s⟩ h hparent
  parent j node k hnode hparent := by
    obtain ⟨hlt, r, hr, hid⟩ :
        k < j ∧ ∃ r, recordAt nodes k = some r ∧ r.id = node.origin.link.id := by
      obtain hold | ⟨rfl, rfl⟩ := getElem?_move h hnode
      · exact H.parent j node k hold hparent
      · exact H.parent j ⟨origin, s⟩ k h hparent
    obtain ⟨r', hr', hid'⟩ := recordAt_move H h move hr
    exact ⟨hlt, r', hr', hid'.trans hid⟩

theorem Step.sound (h : Step nodes final) (H : Sound nodes) : Sound final := by
  cases h with
  | link action actionType h => exact H.append h trivial
  | start action actionType h => exact H.append h trivial
  | move h move => exact H.move h move

theorem Run.sound (h : Run nodes final) (H : Sound nodes) : Sound final := by
  induction h with
  | refl => exact H
  | step _ h ih => exact h.sound ih

theorem Reachable.sound (h : Reachable nodes) : Sound nodes :=
  Run.sound h .nil

theorem Move.isUnit (h : Move origin s t) : t.isUnit = s.isUnit := by cases h <;> rfl

theorem Step.keeps_origin (h : Step nodes final) (hi : nodes[i]? = some ⟨origin, s⟩) :
    ∃ t, final[i]? = some ⟨origin, t⟩ ∧ t.isUnit = s.isUnit := by
  have hlt := (List.getElem?_eq_some_iff.mp hi).1
  cases h with
  | link | start => exact ⟨s, (List.getElem?_append_left hlt).trans hi, rfl⟩
  | @move j other u t hj move =>
    rw [List.getElem?_set]
    split
    · next heq =>
      subst heq
      obtain ⟨rfl, rfl⟩ := Node.mk.inj (Option.some.inj (hi.symm.trans hj))
      exact ⟨t, if_pos hlt, move.isUnit⟩
    · exact ⟨s, hi, rfl⟩

/-- A node keeps its origin, and a unit stays one, whatever happens to it and to the others. -/
theorem Run.keeps_origin (H : Run nodes final) (hi : nodes[i]? = some ⟨origin, s⟩) :
    ∃ t, final[i]? = some ⟨origin, t⟩ ∧ t.isUnit = s.isUnit := by
  induction H with
  | refl => exact ⟨s, hi, rfl⟩
  | step _ h ih =>
    obtain ⟨t, ht, hunit⟩ := ih
    obtain ⟨u, hu, hunit'⟩ := h.keeps_origin ht
    exact ⟨u, hu, hunit'.trans hunit⟩

/-! ## References -/

/-- Following references from a record comes to one without. -/
inductive Rooted (nodes : List Node) : Record → Prop where
  | root {r : Record} (h : r.refId = none) : Rooted nodes r
  | refers {i : Nat} {r parent : Record} (h : r.refId = some parent.id)
      (hparent : recordAt nodes i = some parent) (H : Rooted nodes parent) : Rooted nodes r

/-- No two records have the same identity. -/
def Distinct (nodes : List Node) : Prop :=
  ∀ i j r r', recordAt nodes i = some r → recordAt nodes j = some r' → r.id = r'.id → i = j

/-- A record that refers to something was started from an earlier node, to which it refers. -/
theorem Sound.refers {id : String} (H : Sound nodes) (hr : recordAt nodes i = some r)
    (h : r.refId = some id) :
    ∃ j < i, ∃ parent, recordAt nodes j = some parent ∧ parent.id = id := by
  obtain ⟨⟨origin, s⟩, hnode, hs⟩ := Option.bind_eq_some_iff.mp hr
  have hrefId := (H.alone i _ hnode).refId hs
  cases hparent : origin.parent with
  | none =>
    rw [hrefId, H.detached i _ hnode hparent] at h
    cases h
  | some j =>
    obtain ⟨hlt, parent, hrecord, hid⟩ := H.parent i _ j hnode hparent
    refine ⟨j, hlt, parent, hrecord, hid.trans ?_⟩
    rw [hrefId] at h
    split at h
    · exact Option.some.inj h
    · cases h

theorem Sound.rooted (H : Sound nodes) (hr : recordAt nodes i = some r) : Rooted nodes r := by
  induction i using Nat.strong_induction_on generalizing r with
  | _ i ih =>
    cases h : r.refId with
    | none => exact .root h
    | some id =>
      obtain ⟨j, hlt, parent, hparent, rfl⟩ := H.refers hr h
      exact .refers h hparent (ih j hlt hparent)

/-- Under distinct identities a reference can only be followed back to an earlier node. -/
theorem Sound.lt_of_refers (H : Sound nodes) (hdistinct : Distinct nodes) {r' : Record}
    (hr : recordAt nodes i = some r) (hr' : recordAt nodes j = some r') (h : r.refId = some r'.id) :
    j < i := by
  obtain ⟨k, hlt, parent, hparent, hid⟩ := H.refers hr h
  rwa [hdistinct j k r' parent hr' hparent hid.symm]

/-! ## What a unit leaves -/

/-- The record of a unit that a scope started: chained to its action and referring to it if it had
one, else under the plain name. -/
structure Linked (scope : Trace.Scope) (id action actionType : String) (r : Record) : Prop where
  id : r.id = id
  action : r.action = if scope.action = "" then action else scope.action ++ ":task:" ++ action
  refId : r.refId = if scope.action = "" then none else some scope.id
  actionType : r.actionType = actionType

/-- The record holds its type and what these writes wrote, and nothing else. -/
structure Holds (masked : Trace.Mask.Registry) (actionType : String)
    (writes : List Trace.Scope.Write) (r : Record) : Prop where
  context (key : String) : r.scope.context.get? key =
    match (.put masked "action_type" [actionType] :: writes).filterMap
      (Trace.Scope.Write.values? key) with
    | [] => none
    | puts => some puts.flatten
  stats (key : String) :
    r.scope.stats.get? key = writes.foldl (Trace.Scope.Write.statAfter key) none

/-- What is true of a unit at each stage; what other nodes did does not occur in it. A unit that
closed has given its only line. -/
def Apart (scope : Trace.Scope) (action actionType : String) : Stage → Prop
  | .linked | .log _ => False
  | .waiting => True
  | .underway b | .lost b =>
    Linked scope b.id action actionType b.record ∧ Holds b.masked actionType b.writes b.record
  | .closed b e o left =>
    execute b.masked o.masked o.trace scope.link b.id b.now o.now action actionType
      (.ran (b.writes.map .write) e) = .ok left ∧
    ∃ last, left.emission = some ⟨last.line o.masked, last.outcome⟩ ∧
      Linked scope b.id action actionType last ∧
      Holds b.masked actionType (b.writes ++ e.writes o.masked) last

variable {scope : Trace.Scope} {id action actionType : String} {writes : List Trace.Scope.Write}

theorem Linked.keeps {r' : Record} (H : Linked scope id action actionType r) (h : r.Keeps r') :
    Linked scope id action actionType r' where
  id := h.id.trans H.id
  action := h.action.trans H.action
  refId := h.refId.trans H.refId
  actionType := h.actionType.trans H.actionType

theorem hasRoot_link (scope : Trace.Scope) : scope.link.hasRoot = !decide (scope.action = "") := by
  by_cases h : scope.action = "" <;> simp [Trace.Link.hasRoot, Trace.Scope.link, h]

theorem linked_underway :
    Linked scope id action actionType
      (Work.underway masked scope.link id now action actionType (writes.map .write)) where
  id := underway_write.1
  action := by
    rw [underway_write.2, Record.childAction, hasRoot_link]
    by_cases h : scope.action = ""
    · rw [if_pos h]; simp [h]
    · rw [if_neg h]; simp [h, Trace.Scope.link]
  refId := by
    change (if scope.link.hasRoot then some scope.link.id else none) = _
    rw [hasRoot_link]
    by_cases h : scope.action = ""
    · rw [if_pos h]; simp [h]
    · rw [if_neg h]; simp [h, Trace.Scope.link]
  actionType := rfl

theorem Holds.of_scope {s : Trace.Scope} (hcontext : s.context = .empty) (hstats : s.stats = .empty)
    (h : r.scope = s.writeAll (.put masked "action_type" [actionType] :: writes)) :
    Holds masked actionType writes r where
  context key := by
    rw [h, Trace.Scope.context_writeAll, hcontext]
    rfl
  stats key := by
    rw [h, Trace.Scope.stats_writeAll, hstats]
    rfl

theorem holds_underway (link : Trace.Link) :
    Holds masked actionType writes
      (Work.underway masked link id now action actionType (writes.map .write)) :=
  .of_scope (s := .named id (Record.childAction link action)) rfl rfl
    (Trace.Scope.editAll_write writes _)

theorem Origin.Alone.apart {parent : Option Nat}
    (H : Origin.Alone ⟨parent, scope.link, action, actionType⟩ s) (hunit : s.isUnit = true) :
    Apart scope action actionType s := by
  cases s with
  | linked | log => cases hunit
  | waiting => exact trivial
  | underway b | lost b =>
    have hrecord : b.record = _ := H
    rw [Apart, hrecord]
    exact ⟨linked_underway, holds_underway scope.link⟩
  | closed b e o left =>
    obtain ⟨hrecord, rfl⟩ := H
    have hopen : b.record.emitted = false := hrecord ▸ rfl
    have hlinked : Linked scope b.id action actionType b.record := hrecord ▸ linked_underway
    refine ⟨?_, e.ended o.masked o.trace o.now b.record, ?_, hlinked.keeps keeps_ended, ?_⟩
    · rw [execute, Body.close, hrecord]
    · rw [Body.close, close_eq hopen]
    · refine .of_scope (s := .named b.id (Record.childAction scope.link action)) rfl rfl ?_
      rw [scope_ended, hrecord, ← List.cons_append, Trace.Scope.writeAll_append]
      exact congrArg (Trace.Scope.writeAll _) (Trace.Scope.editAll_write b.writes _)

/-- A unit that has not ended can close next, with any ending. -/
theorem exists_closed (hi : nodes[i]? = some ⟨origin, s⟩) (hs : s = .waiting ∨ ∃ b, s = .underway b)
    (e : Ending) (o : Occasion) : ∃ b left final, Run nodes final ∧
      final = nodes.set i ⟨origin, .closed b e o left⟩ := by
  have hlt := (List.getElem?_eq_some_iff.mp hi).1
  obtain rfl | ⟨b, rfl⟩ := hs
  · let b := Body.begin origin "" o.masked o.now
    have begun : Run nodes (nodes.set i ⟨origin, .underway b⟩) := .step .refl (.move hi (.begin ..))
    have hbegun : (nodes.set i ⟨origin, .underway b⟩)[i]? = some ⟨origin, .underway b⟩ :=
      List.getElem?_set_self hlt
    exact ⟨b, _, _, .step begun (.move hbegun (.close e o)), List.set_set ..⟩
  · exact ⟨b, _, _, .step .refl (.move hi (.close e o)), rfl⟩

/-- **Links form a forest, and units keep apart.** Let a scope start a unit, and let anything happen
after that, to the unit and to all others. The unit keeps the link it was lent: if the scope had an
action at that moment, its record is chained to that action and refers to the scope, otherwise it
has the plain name and refers to nothing. Its record holds what its own body and its own failure
wrote, and nothing else. As long as its body was not lost it can come to its end, and then it has
given one line. Following references from any record comes to one without; under distinct identities
each leads to an earlier node. -/
theorem units_apart {parent : Option Nat} (h : Reachable nodes)
    (hscope : lent nodes parent = some scope)
    (H : Run (nodes ++ [⟨⟨parent, scope.link, action, actionType⟩, .waiting⟩]) final) :
    (∃ s, final[nodes.length]? = some ⟨⟨parent, scope.link, action, actionType⟩, s⟩ ∧
      Apart scope action actionType s ∧
      (s = .waiting ∨ (∃ b, s = .underway b) → ∀ e o, ∃ b left later, Run final later ∧
        later = final.set nodes.length
          ⟨⟨parent, scope.link, action, actionType⟩, .closed b e o left⟩)) ∧
    (∀ i r, recordAt final i = some r → Rooted final r) ∧
    (Distinct final → ∀ i j r r', recordAt final i = some r → recordAt final j = some r' →
      r.refId = some r'.id → j < i) := by
  have sound : Sound final := H.sound ((h.sound.append hscope trivial))
  obtain ⟨s, hs, hunit⟩ := H.keeps_origin List.getElem?_concat_length
  refine ⟨⟨s, hs, (sound.alone _ _ hs).apart hunit, exists_closed hs⟩,
    fun i r hr => sound.rooted hr, ?_⟩
  exact fun hdistinct i j r r' hr hr' => sound.lt_of_refers hdistinct hr hr'

/-- A unit started by a unit; the log at the root is renamed and the parent closed before it
begins. -/
theorem units_apart_grandchild : ∃ nodes scope final, Reachable nodes ∧
    lent nodes (some 1) = some scope ∧
    Run (nodes ++ [⟨⟨some 1, scope.link, "inner", taskType⟩, .waiting⟩]) final ∧
    ∃ (left : Closed) (last : Record),
      final[2]?.map (·.stage.emitted) = some left.emission.toList ∧
      left.emission = some ⟨last.line .empty, last.outcome⟩ ∧
      last.action = "job:task:outer:task:inner" ∧ last.refId = some "b" ∧
      last.scope.context.get? "table" = some ["orders"] := by
  let job : Origin := ⟨none, Trace.Scope.detached.link, "job", "job"⟩
  let outer : Origin := ⟨some 0, ⟨"a", "job"⟩, "outer", taskType⟩
  let inner : Origin := ⟨some 1, ⟨"b", "job:task:outer"⟩, "inner", taskType⟩
  let nodes : List Node :=
    [⟨job, .log ⟨_, .child .empty job.link "a" ⟨0, 0⟩ "job" "job", []⟩⟩,
      ⟨outer, .underway (.begin outer "b" .empty ⟨0, 1⟩)⟩]
  have h : Reachable _ := .step .refl (@Step.link _ none _ "job" "job" rfl)
  have h : Reachable _ := .step h (.move (i := 0) rfl (.hold .empty "a" ⟨0, 0⟩))
  have h : Reachable _ := .step h (@Step.start _ (some 0) _ "outer" taskType rfl)
  have h : Reachable nodes := .step h (.move (i := 1) rfl (.begin "b" .empty ⟨0, 1⟩))
  have H : Run (nodes ++ [⟨inner, .waiting⟩]) _ := .refl
  have H := H.step (.move (i := 0) rfl (.change (.rename "other")))
  have H := H.step (.move (i := 1) rfl (.close .returned ⟨.empty, "", ⟨0, 2⟩⟩))
  have H := H.step (.move (i := 2) rfl (.begin "c" .empty ⟨0, 3⟩))
  have H := H.step (.move (i := 2) rfl (.write (.put .empty "table" ["orders"])))
  have H := H.step (.move (i := 2) rfl (.close .returned ⟨.empty, "", ⟨0, 4⟩⟩))
  have hscope : lent nodes (some 1) = some _ := rfl
  obtain ⟨⟨s, hs, hapart, -⟩, -⟩ := units_apart h hscope H
  obtain rfl := (Node.mk.inj (Option.some.inj hs)).2
  obtain ⟨-, last, hemission, hlinked, hholds⟩ := hapart
  exact ⟨nodes, _, _, h, hscope, H, _, last, rfl, hemission, hlinked.action, hlinked.refId,
    hholds.context "table"⟩

end Lineage

end Logbook.Work
