import Logbook.Proofs.Http.Custody

/-! What the run of an answered request tells: with which response it was answered (`Answers`), and
by which of its moves the record was completed (`issued_of_run`). The record is completed with what
the completing move finds around it, either by the answer or by the drop of the handle that had the
record then. -/

namespace Logbook.Http

variable {masked : Trace.Mask.Registry} {trace : String} {now : Moment} {r : Record} {reply : Reply}

/-- The move by which an emitter completes the record. -/
def Emitter.move (o : Occasion) : Emitter → Move
  | .middleware => .complete o
  | .handle name => .drop name o

/-- Wherever the record is, the answer is the response of the reply. -/
theorem Handoff.response_answer (h : Handoff) (reply : Reply) :
    (h.answer masked trace now reply).1 = reply.response := by
  obtain ⟨record, pending⟩ := h
  cases record <;> cases reply <;> rfl

namespace Tracked

variable {s t : Tracked} {m : Move} {moves : List Move} {e : Emitter} {o : Occasion} {name : Nat}

/-! ## The response -/

/-- Somewhere in the run the request is answered with this response. -/
def Answers (moves : List Move) (s : Tracked) (response : Response) : Prop :=
  ∃ before o after u reply, moves = before ++ .complete o :: after ∧ run before s = some u ∧
    u.phase = .finished reply ∧
    response = (u.slot.answer o.masked o.trace o.now reply).1

/-- Only the answer answers a request. -/
theorem phase_step (h : step m s = some t) (answered : t.phase = .answered reply) :
    s.phase = .answered reply ∨ ∃ o, m = .complete o ∧ s.phase = .finished reply := by
  cases m with
  | extract =>
    rw [step, Option.some.injEq] at h
    subst h
    refine .inl (.trans ?_ answered)
    rw [extract?]
    cases s.slot.take? <;> rfl
  | write name w =>
    obtain ⟨_, -, rfl⟩ := Option.map_eq_some_iff.1 h
    exact .inl answered
  | drop name o =>
    obtain ⟨_, -, rfl⟩ := Option.map_eq_some_iff.1 h
    exact .inl answered
  | finish given =>
    rw [step] at h
    split at h
    · cases h
      cases answered
    · cases h
  | complete o =>
    rw [step] at h
    split at h
    · next given phase =>
      cases h
      cases answered
      exact .inr ⟨o, rfl, phase⟩
    · cases h

theorem answers_cons {response : Response} (hstep : step m s = some t)
    (H : Answers moves t response) : Answers (m :: moves) s response := by
  obtain ⟨before, o, after, u, reply, rfl, hbefore, phase, hresponse⟩ := H
  refine ⟨m :: before, o, after, u, reply, rfl, ?_, phase, hresponse⟩
  rw [run, hstep]
  exact hbefore

theorem answers_of_run (h : run moves s = some t) (answered : t.phase = .answered reply) :
    s.phase = .answered reply ∨ Answers moves s reply.response := by
  induction moves generalizing s with
  | nil =>
    cases h
    exact .inl answered
  | cons m moves ih =>
    obtain ⟨u, hstep, hrun⟩ := run_cons h
    rcases ih hrun with hu | H
    · rcases phase_step hstep hu with hs | ⟨o, rfl, hs⟩
      · exact .inl hs
      · exact .inr ⟨[], o, moves, s, reply, rfl, rfl, hs, (Handoff.response_answer ..).symm⟩
    · exact .inr (answers_cons hstep H)

/-! ## The completing move -/

/-- Once the record is emitted a run writes nothing. -/
theorem written_emitted (H : Settled reply e r s) (hs : s.handles = []) (h : run moves s = some t) :
    written moves r = r := by
  induction moves with
  | nil => rfl
  | cons m moves ih =>
    obtain ⟨u, hstep, hrun⟩ := run_cons h
    cases step_emitted H hs hstep
    cases m with
    | write name w => cases (step_write_of_nil hs).symm.trans hstep
    | _ => exact ih hrun

/-- The handle that has the record of an answered request completes it when it is dropped. -/
theorem drop_waiting {other : Nat} (H : Settled reply (.handle name) r s)
    (hs : s.handles = [⟨name, r⟩]) (h : step (.drop other o) s = some t) :
    other = name ∧ t.handles = [] ∧
      t.issued = [⟨.handle name, reply.completion.apply o.masked o.trace o.now r⟩] := by
  obtain ⟨rfl, ht⟩ := step_drop_eq hs h
  cases H with
  | waiting _ _ slot _ issued =>
    rw [slot] at ht
    subst ht
    exact ⟨rfl, rfl, by simp [issue, issued]⟩
  | emitted _ _ handles => cases handles.symm.trans hs

/-- Until then it takes the writes, so the record is completed with all of them. -/
theorem issued_of_waiting (H : Settled reply (.handle name) r s) (hs : s.handles = [⟨name, r⟩])
    (h : run moves s = some t) (dropped : t.handles = []) : ∃ o, .drop name o ∈ moves ∧
      t.issued =
        [⟨.handle name, reply.completion.apply o.masked o.trace o.now (written moves r)⟩] := by
  induction moves generalizing r s with
  | nil =>
    cases h
    cases hs.symm.trans dropped
  | cons m moves ih =>
    obtain ⟨u, hstep, hrun⟩ := run_cons h
    have settled := settled_step H hstep
    cases m with
    | extract =>
      rw [step, H.extract?_eq_none, Option.getD_none, Option.some.injEq] at hstep
      subst hstep
      obtain ⟨o, hmem, issued⟩ := ih settled hs hrun
      exact ⟨o, .tail _ hmem, issued⟩
    | write other w =>
      obtain ⟨rfl, rfl⟩ := step_write_eq hs hstep
      obtain ⟨o, hmem, issued⟩ := ih settled rfl hrun
      exact ⟨o, .tail _ hmem, issued⟩
    | drop other o =>
      obtain ⟨rfl, handles, issued⟩ := drop_waiting H hs hstep
      cases run_emitted settled handles hrun
      have hwritten : written moves r = r := written_emitted settled handles hrun
      rw [← hwritten] at issued
      exact ⟨o, .head _, issued⟩
    | finish given => cases (step_finish_of_answered H.phase given).symm.trans hstep
    | complete o => cases (step_complete_of_answered H.phase).symm.trans hstep

/-- The answer completes a record that is in its slot and leaves one that is held to its handle. -/
theorem complete_open (H : Open r s) (h : step (.complete o) s = some t)
    (answered : t.phase = .answered reply) :
    (Settled reply .middleware r t ∧ t.handles = [] ∧
      t.issued = [⟨.middleware, reply.completion.apply o.masked o.trace o.now r⟩]) ∨
    ∃ name, Settled reply (.handle name) r t ∧ t.handles = [⟨name, r⟩] := by
  rw [step] at h
  split at h
  case h_2 => cases h
  case h_1 given phase =>
    cases H with
    | slotted slot handles issued _ =>
      rw [slot, Handoff.answer_holding] at h
      cases h
      cases answered
      exact .inl ⟨.emitted o rfl handles (by simp [issue, issued]) rfl, handles,
        by simp [issue, issued]⟩
    | held name slot handles issued _ =>
      rw [slot, Handoff.answer_out] at h
      cases h
      cases answered
      exact .inr ⟨name, .waiting name rfl rfl handles (by simp [issue, issued]) rfl, handles⟩

/-- **The completing move.** Once a request is answered and no handle is left, its record was
completed by one of the moves, as the reply says and with what that move found around it. -/
theorem issued_of_run (H : Open r s) (h : run moves s = some t)
    (answered : t.phase = .answered reply) (dropped : t.handles = []) : ∃ (e : Emitter)
    (o : Occasion), e.move o ∈ moves ∧
      t.issued = [⟨e, reply.completion.apply o.masked o.trace o.now (written moves r)⟩] := by
  induction moves generalizing r s with
  | nil =>
    cases h
    have phase : ∀ reply, t.phase ≠ .answered reply := by cases H <;> assumption
    exact absurd answered (phase reply)
  | cons m moves ih =>
    obtain ⟨u, hstep, hrun⟩ := run_cons h
    rcases open_step H hstep with H' | ⟨o, given, e, rfl, -, settled⟩
    · obtain ⟨e, o, hmem, issued⟩ := ih H' hrun
      exact ⟨e, o, .tail _ hmem, issued⟩
    · -- from the answer on only the move of `e` completes the record
      cases answered.symm.trans (settled_run settled hrun).phase
      rcases complete_open H hstep settled.phase with
        ⟨settled, handles, issued⟩ | ⟨name, settled, handles⟩
      · cases run_emitted settled handles hrun
        have hwritten : written moves r = r := written_emitted settled handles hrun
        rw [← hwritten] at issued
        exact ⟨.middleware, o, .head _, issued⟩
      · obtain ⟨o', hmem, issued⟩ := issued_of_waiting settled handles hrun dropped
        exact ⟨.handle name, o', .tail _ hmem, issued⟩

end Tracked

end Logbook.Http
