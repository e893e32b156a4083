import Logbook.Http.Request
import Logbook.Proofs.Http.Completion
import Logbook.Proofs.Http.Tracked

/-! One record for each tracked request. Until the request is answered its record is open, in the
slot or in one handle (`Open`); from then on it is settled who emits it: it waits in the handle that
had it, or it is emitted (`Settled`). Each move keeps the record in one place, whatever the
order. -/

namespace Logbook.Http.Tracked

variable {r : Record} {s t u : Tracked} {m : Move} {moves : List Move} {reply : Reply}
  {e : Emitter} {o : Occasion}

/-- The request is not answered, and its record is in one place. -/
inductive Open (r : Record) (s : Tracked) : Prop where
  | slotted (slot : s.slot = .holding r) (handles : s.handles = []) (issued : s.issued = [])
      (phase : ∀ reply, s.phase ≠ .answered reply)
  | held (name : Nat) (slot : s.slot = ⟨none, none⟩) (handles : s.handles = [⟨name, r⟩])
      (issued : s.issued = []) (phase : ∀ reply, s.phase ≠ .answered reply)

/-- The request is answered, and it is settled who emits its record. -/
inductive Settled (reply : Reply) (e : Emitter) (r : Record) (s : Tracked) : Prop where
  | waiting (name : Nat) (emitter : e = .handle name) (slot : s.slot = ⟨none, reply.completion⟩)
      (handles : s.handles = [⟨name, r⟩]) (issued : s.issued = [])
      (phase : s.phase = .answered reply)
  | emitted (o : Occasion) (slot : s.slot = ⟨none, none⟩) (handles : s.handles = [])
      (issued : s.issued = [⟨e, reply.completion.apply o.masked o.trace o.now r⟩])
      (phase : s.phase = .answered reply)

/-- Who emits the record if the request is answered now: the middleware if the record is in its
slot, else the handle that has it. -/
inductive Decides (s : Tracked) : Emitter → Prop where
  | middleware (slot : s.slot.record.isSome) : Decides s .middleware
  | handle (name : Nat) (r : Record) (slot : s.slot.record = none)
      (handles : s.handles = [⟨name, r⟩]) : Decides s (.handle name)

/-! ## Moves on the only handle -/

theorem extract?_eq_none (h : s.slot.record = none) : s.extract? = none := by
  rw [extract?, Handoff.take?, h]
  rfl

theorem step_extract_of_none (h : s.slot.record = none) : step .extract s = some s := by
  rw [step, extract?_eq_none h]
  rfl

theorem record?_of_ne {h : Handle} {name : Nat} (hs : s.handles = [h]) (hne : h.name ≠ name) :
    s.record? name = none := by
  simp [record?, hs, hne]

theorem record?_self {h : Handle} (hs : s.handles = [h]) : s.record? h.name = some h.record := by
  simp [record?, hs]

/-- Without handles, or through another name, there is nothing to write to. -/
theorem step_write_eq {name : Nat} {w : Write} {h : Handle} (hs : s.handles = [h])
    (ht : step (.write name w) s = some t) :
    name = h.name ∧ t = { s with handles := [⟨h.name, w.apply h.record⟩] } := by
  by_cases hname : h.name = name
  · subst hname
    rw [step, record?_self hs, Option.map_some, Option.some.injEq] at ht
    simpa [hs] using ht.symm
  · rw [step, record?_of_ne hs hname] at ht
    cases ht

theorem step_drop_eq {name : Nat} {h : Handle} (hs : s.handles = [h])
    (ht : step (.drop name o) s = some t) :
    name = h.name ∧
      let (slot, completed) := s.slot.giveBack o.masked o.trace o.now h.record
      t = { s with slot := slot, handles := [] }.issue (.handle h.name) completed := by
  by_cases hname : h.name = name
  · subst hname
    rw [step, record?_self hs, Option.map_some, Option.some.injEq] at ht
    simpa [hs] using ht.symm
  · rw [step, record?_of_ne hs hname] at ht
    cases ht

theorem step_write_of_nil {name : Nat} {w : Write} (hs : s.handles = []) :
    step (.write name w) s = none := by
  simp [step, record?, hs]

theorem step_drop_of_nil {name : Nat} (hs : s.handles = []) : step (.drop name o) s = none := by
  simp [step, record?, hs]

/-! ## Before the answer -/

theorem open_admitted (r : Record) : Open r (admitted r) :=
  .slotted rfl rfl rfl fun _ h => nomatch h

theorem open_extract (H : Open r s) (h : step .extract s = some t) : Open r t := by
  cases H with
  | slotted slot handles issued phase =>
    obtain rfl : { s with slot := ⟨none, none⟩, handles := [⟨s.fresh, r⟩],
                          fresh := s.fresh + 1 } = t := by
      simpa [step, extract?, Handoff.take?, Handoff.holding, slot, handles] using h
    exact .held s.fresh rfl rfl issued phase
  | held name slot handles issued phase =>
    rw [step_extract_of_none (by rw [slot])] at h
    cases h
    exact .held name slot handles issued phase

theorem open_write {name : Nat} {w : Write} (H : Open r s)
    (h : step (.write name w) s = some t) : Open (w.apply r) t := by
  cases H with
  | slotted slot handles issued phase =>
    rw [step_write_of_nil handles] at h
    cases h
  | held name slot handles issued phase =>
    obtain ⟨-, rfl⟩ := step_write_eq handles h
    exact .held name slot rfl issued phase

theorem open_drop {name : Nat} (H : Open r s) (h : step (.drop name o) s = some t) : Open r t := by
  cases H with
  | slotted slot handles issued phase =>
    rw [step_drop_of_nil handles] at h
    cases h
  | held name slot handles issued phase =>
    obtain ⟨-, h⟩ := step_drop_eq handles h
    rw [slot] at h
    subst h
    exact .slotted rfl rfl (by simp [issue, issued]) phase

theorem open_finish (H : Open r s) (h : step (.finish reply) s = some t) : Open r t := by
  rw [step] at h
  split at h
  · cases h
    cases H with
    | slotted slot handles issued _ => exact .slotted slot handles issued fun _ h => nomatch h
    | held name slot handles issued _ => exact .held name slot handles issued fun _ h => nomatch h
  · cases h

/-- The answer settles who emits the record. -/
theorem settled_complete (H : Open r s) (h : step (.complete o) s = some t) :
    ∃ reply e, s.Decides e ∧ Settled reply e r t := by
  rw [step] at h
  split at h
  case h_2 => cases h
  case h_1 reply phase =>
    cases H with
    | slotted slot handles issued _ =>
      rw [slot, Handoff.answer_holding] at h
      cases h
      exact ⟨reply, .middleware, .middleware (by rw [slot]; rfl),
        .emitted o rfl handles (by simp [issue, issued]) rfl⟩
    | held name slot handles issued _ =>
      rw [slot, Handoff.answer_out] at h
      cases h
      exact ⟨reply, .handle name, .handle name r (by rw [slot]) handles,
        .waiting name rfl rfl handles (by simp [issue, issued]) rfl⟩

/-- Before the answer a move keeps the record open, or it is the answer. -/
theorem open_step (H : Open r s) (h : step m s = some t) :
    Open (m.apply r) t ∨
      ∃ o reply e, m = .complete o ∧ s.Decides e ∧ Settled reply e (m.apply r) t := by
  cases m with
  | extract => exact .inl (open_extract H h)
  | write name w => exact .inl (open_write H h)
  | drop name o => exact .inl (open_drop H h)
  | finish reply => exact .inl (open_finish H h)
  | complete o =>
    obtain ⟨reply, e, decides, settled⟩ := settled_complete H h
    exact .inr ⟨o, reply, e, rfl, decides, settled⟩

/-! ## After the answer -/

theorem step_finish_of_answered (hs : s.phase = .answered reply) (other : Reply) :
    step (.finish other) s = none := by
  rw [step, hs]

theorem step_complete_of_answered (hs : s.phase = .answered reply) :
    step (.complete o) s = none := by
  rw [step, hs]

theorem Settled.phase (H : Settled reply e r s) : s.phase = .answered reply := by
  cases H <;> assumption

/-- The slot stays empty, so nothing can be extracted. -/
theorem Settled.extract?_eq_none (H : Settled reply e r s) : s.extract? = none := by
  cases H with
  | waiting name emitter slot => exact Tracked.extract?_eq_none (by rw [slot])
  | emitted o slot => exact Tracked.extract?_eq_none (by rw [slot])

theorem settled_step (H : Settled reply e r s) (h : step m s = some t) :
    Settled reply e (m.apply r) t := by
  have hextract : step .extract s = some s := by
    rw [step, H.extract?_eq_none]
    rfl
  cases H with
  | waiting name emitter slot handles issued phase =>
    cases m with
    | extract =>
      cases hextract.symm.trans h
      exact .waiting name emitter slot handles issued phase
    | write other w =>
      obtain ⟨-, rfl⟩ := step_write_eq handles h
      exact .waiting name emitter slot rfl issued phase
    | drop other o =>
      obtain ⟨-, h⟩ := step_drop_eq handles h
      rw [slot] at h
      subst h emitter
      exact .emitted o rfl rfl (by simp [issue, issued, Move.apply]) phase
    | finish other => cases (step_finish_of_answered phase other).symm.trans h
    | complete o => cases (step_complete_of_answered phase).symm.trans h
  | emitted o slot handles issued phase =>
    cases m with
    | extract =>
      cases hextract.symm.trans h
      exact .emitted o slot handles issued phase
    | write other w => cases (step_write_of_nil handles).symm.trans h
    | drop other o => cases (step_drop_of_nil handles).symm.trans h
    | finish other => cases (step_finish_of_answered phase other).symm.trans h
    | complete o => cases (step_complete_of_answered phase).symm.trans h

/-- Once its record is emitted nothing of the request changes any more. -/
theorem step_emitted (H : Settled reply e r s) (hs : s.handles = []) (h : step m s = some t) :
    t = s := by
  have phase : s.phase = .answered reply := H.phase
  cases m with
  | extract =>
    rw [step, H.extract?_eq_none, Option.getD_none, Option.some.injEq] at h
    exact h.symm
  | write name w => cases (step_write_of_nil hs).symm.trans h
  | drop name o => cases (step_drop_of_nil hs).symm.trans h
  | finish other => cases (step_finish_of_answered phase other).symm.trans h
  | complete o => cases (step_complete_of_answered phase).symm.trans h

/-! ## Runs -/

theorem run_cons (h : run (m :: moves) s = some t) :
    ∃ u, step m s = some u ∧ run moves u = some t := Option.bind_eq_some_iff.1 h

theorem settled_run (H : Settled reply e r s) (h : run moves s = some t) :
    Settled reply e (written moves r) t := by
  induction moves generalizing r s with
  | nil =>
    cases h
    exact H
  | cons m moves ih =>
    obtain ⟨u, hstep, hrun⟩ := run_cons h
    exact ih (settled_step H hstep) hrun

theorem run_emitted (H : Settled reply e r s) (hs : s.handles = []) (h : run moves s = some t) :
    t = s := by
  induction moves with
  | nil =>
    cases h
    rfl
  | cons m moves ih =>
    obtain ⟨u, hstep, hrun⟩ := run_cons h
    cases step_emitted H hs hstep
    exact ih hrun

end Logbook.Http.Tracked

namespace Logbook.Http

open Tracked

theorem Request.emitted_begin (masked : Trace.Mask.Registry) (id : String) (now : Moment)
    (request : Request) : (request.begin masked id now).emitted = false := by
  unfold Request.begin
  split <;> rfl

/-- A request begins with two context keys at most. -/
theorem Request.context_begin (masked : Trace.Mask.Registry) (id : String) (now : Moment)
    (request : Request) {key : String} (htype : key ≠ "action_type") (hid : key ≠ "request_id") :
    (request.begin masked id now).scope.context.get? key = none := by
  have hstart (action : String) :
      (Record.start masked id now action webType).scope.context.get? key = none :=
    KeyMap.get?_alter_of_ne _ htype
  unfold Request.begin
  split
  · exact (Record.context_put_of_ne _ hid).trans (hstart _)
  · exact hstart _

end Logbook.Http
