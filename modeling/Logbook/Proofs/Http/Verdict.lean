import Logbook.Proofs.Http.Answered
import Logbook.Proofs.Trace.Writes

/-! The verdict on a request. What a completion makes of a record is told by the reply alone
(`ended_eq`): the verdict is that of the response, a fault of the server fails the record and
nothing else does, and the context gets the notes of the completion. The writes of a run mark
nothing, so this holds of every record that is emitted (`verdict_of_run`, `status_of_run`). -/

namespace Logbook

namespace Outcome

variable {status : Nat}

theorem ok_worst (o : Outcome) : ok.worst o = o := by cases o <;> rfl

theorem ofStatus_eq_error_iff : ofStatus status = error ↔ 500 ≤ status ∧ status ≤ 599 := by
  unfold ofStatus
  split
  · exact iff_of_true rfl (by omega)
  · split <;> exact iff_of_false nofun (by omega)

theorem ofStatus_eq_warn_iff : ofStatus status = warn ↔ 400 ≤ status ∧ status ≤ 499 := by
  unfold ofStatus
  split
  · exact iff_of_false nofun (by omega)
  · split
    · exact iff_of_true rfl (by omega)
    · exact iff_of_false nofun (by omega)

theorem ofStatus_eq_ok_iff : ofStatus status = ok ↔ ¬(400 ≤ status ∧ status ≤ 599) := by
  unfold ofStatus
  split
  · exact iff_of_false nofun (by omega)
  · split
    · exact iff_of_false nofun (by omega)
    · exact iff_of_true rfl (by omega)

end Outcome

/-- What is noted of a failure: its status, and its place if that is known. -/
def Failure.notes (f : Failure) : List (String × String) :=
  ("status", toString f.status) :: (f.location?.map fun location => ("location", location)).toList

namespace Record

variable {masked : Trace.Mask.Registry} {r : Record}

/-- Nothing has failed the record, raised its verdict or emitted it. -/
structure Unmarked (r : Record) : Prop where
  outcome : r.outcome = .ok
  errorCode : r.errorCode = none
  errorMessage : r.errorMessage = none
  stackTrace : r.stackTrace = none
  emitted : r.emitted = false

/-- A fault as one change of the record. -/
theorem fault_eq (f : Failure) (trace : String) : r.fault masked f trace =
    { r with scope := r.scope.writeAll (Trace.Scope.noting masked f.notes),
             errorCode := some f.code, errorMessage := some f.message, stackTrace := some trace,
             outcome := .error } := by
  cases f <;> simp only [fault, fail, escalate, Outcome.worst_error] <;> rfl

/-- An end gives a record its duration and nothing else. -/
theorem exists_finish (now : Moment) (r : Record) :
    ∃ elapsed, r.finish now = { r with elapsed := elapsed } := by
  unfold finish
  split
  · exact ⟨r.elapsed, rfl⟩
  · exact ⟨_, rfl⟩

end Record

namespace Http

variable {masked : Trace.Mask.Registry} {trace : String} {now : Moment} {r : Record} {f : Failure}
  {reply : Reply}

/-- The reply is a fault of the server: its handler panicked, or it reports a failure with an error
of the server as its status. -/
inductive Reply.Faults : Reply → Failure → Prop where
  | panicked (payload : Payload) : Faults (.panicked payload) (.ofPayload payload)
  | reported {response : Response} {f : Failure} (reports : response.failure = some f)
      (status : 500 ≤ response.status ∧ response.status ≤ 599) : Faults (.responded response) f

/-- The reply reports a failure with another status. -/
inductive Reply.Reports : Reply → Failure → Prop where
  | intro {response : Response} {f : Failure} (reports : response.failure = some f)
      (status : ¬(500 ≤ response.status ∧ response.status ≤ 599)) : Reports (.responded response) f

namespace Completion

variable {c : Completion}

/-- The failure that a completion marks the record with. -/
def fault? (c : Completion) : Option Failure := if isServerError c.status then c.failure else none

/-- What a completion notes in the context: its fault, or the status of the response and the code of
a failure that is no fault. -/
def notes (c : Completion) : List (String × String) :=
  match c.fault? with
  | some f => f.notes
  | none => ("status", toString c.status) :: (c.failure.map fun f => ("error_code", f.code)).toList

/-- The status that a completion notes: that of its fault, or that of the response. -/
def recordedStatus (c : Completion) : Nat := (c.fault?.map (·.status)).getD c.status

theorem isServerError_iff {status : Nat} :
    isServerError status = true ↔ 500 ≤ status ∧ status ≤ 599 := by
  rw [isServerError, decide_eq_true_iff, Nat.lt_succ_iff]

theorem fault?_eq_some_iff :
    c.fault? = some f ↔ c.failure = some f ∧ 500 ≤ c.status ∧ c.status ≤ 599 := by
  rw [fault?, ← isServerError_iff]
  split
  · next h => exact (and_iff_left h).symm
  · next h => exact iff_of_false nofun fun hf => h hf.2

theorem mark_of_fault (h : c.fault? = some f) :
    (c.mark masked trace r).1 = r.fault masked f trace := by
  obtain ⟨hfailure, hstatus⟩ := fault?_eq_some_iff.1 h
  simp only [mark, hfailure, isServerError_iff.2 hstatus, if_true]

theorem mark_of_none (h : c.fault? = none) (hr : r.errorCode = none) :
    (c.mark masked trace r).1 =
      { r with scope := r.scope.writeAll (Trace.Scope.noting masked c.notes) } := by
  rw [notes, h]
  obtain ⟨status, failure⟩ := c
  cases failure with
  | none => exact congrArg Prod.fst (if_pos (by rw [hr]; rfl))
  | some f =>
    have hstatus : isServerError status = false := by
      cases hs : isServerError status with
      | false => rfl
      | true => simp [fault?, hs] at h
    simp only [mark, hstatus, Bool.false_eq_true, if_false]
    rfl

theorem noted_status : Trace.Scope.noted "status" c.notes = [toString c.recordedStatus] := by
  unfold notes recordedStatus
  cases c.fault? with
  | some f => cases f <;> simp [Trace.Scope.noted, Failure.notes, Failure.location?]
  | none => cases c.failure <;> simp [Trace.Scope.noted]

theorem noted_errorCode (h : c.fault? = none) (hf : c.failure = some f) :
    Trace.Scope.noted "error_code" c.notes = [f.code] := by
  rw [notes, h, hf]
  simp [Trace.Scope.noted]

/-- **What a completion makes of a record.** The notes stand in its context, it is failed exactly by
a fault, and its verdict is that of the status. -/
theorem ended_eq (masked : Trace.Mask.Registry) (trace : String) (now : Moment) (c : Completion)
    (hr : r.Unmarked) : ∃ elapsed, c.ended masked trace now r =
    { r with scope := r.scope.writeAll (Trace.Scope.noting masked c.notes),
             errorCode := c.fault?.map (·.code), errorMessage := c.fault?.map (·.message),
             stackTrace := c.fault?.map fun _ => trace, outcome := .ofStatus c.status,
             elapsed := elapsed } := by
  obtain ⟨elapsed, hfinish⟩ :=
    Record.exists_finish now ((c.mark masked trace r).1.escalate (.ofStatus c.status))
  refine ⟨elapsed, hfinish.trans ?_⟩
  cases h : c.fault? with
  | some f =>
    -- the fault is an error already, so the error of its status raises nothing
    obtain ⟨-, hstatus⟩ := fault?_eq_some_iff.1 h
    rw [mark_of_fault h, Record.fault_eq, notes, h, Outcome.ofStatus_eq_error_iff.2 hstatus]
    rfl
  | none =>
    rw [mark_of_none h hr.errorCode, Record.escalate]
    simp only [hr.outcome, hr.errorCode, hr.errorMessage, hr.stackTrace, Outcome.ok_worst,
      Option.map_none]

end Completion

namespace Reply

theorem status_completion (reply : Reply) : reply.completion.status = reply.response.status := by
  cases reply <;> rfl

theorem fault?_completion : reply.completion.fault? = some f ↔ reply.Faults f := by
  rw [Completion.fault?_eq_some_iff]
  cases reply with
  | panicked payload =>
    refine ⟨?_, ?_⟩
    · rintro ⟨⟨⟩, -⟩
      exact .panicked payload
    · rintro ⟨⟩
      exact ⟨rfl, Completion.isServerError_iff.1 rfl⟩
  | responded response =>
    refine ⟨fun ⟨reports, status⟩ => .reported reports status, ?_⟩
    rintro (_ | ⟨reports, status⟩)
    exact ⟨reports, status⟩

theorem fault?_completion_eq_none (h : ∀ f, ¬reply.Faults f) : reply.completion.fault? = none := by
  rw [Option.eq_none_iff_forall_ne_some]
  exact fun f hf => h f (fault?_completion.1 hf)

theorem Reports.failure (h : reply.Reports f) : reply.completion.failure = some f := by
  cases h
  assumption

theorem Reports.fault? (h : reply.Reports f) : reply.completion.fault? = none := by
  obtain ⟨-, status⟩ := h
  exact if_neg (mt Completion.isServerError_iff.1 status)

end Reply

/-! ## Runs -/

/-- The move leaves what a record has under a context key. -/
def Move.Spares (key : String) (m : Move) : Prop :=
  ∀ r, (m.apply r).scope.context.get? key = r.scope.context.get? key

namespace Tracked

variable {s t : Tracked} {m : Move} {moves : List Move} {key : String}

/-- The writes of a run mark nothing. -/
theorem unmarked_written (hr : r.Unmarked) : (written moves r).Unmarked := by
  induction moves generalizing r with
  | nil => exact hr
  | cons m moves ih =>
    refine ih (r := m.apply r) ?_
    cases m with
    | write name w => cases w <;> exact { hr with }
    | _ => exact hr

theorem context_written (h : ∀ m ∈ moves, m.Spares key) :
    (written moves r).scope.context.get? key = r.scope.context.get? key := by
  induction moves generalizing r with
  | nil => rfl
  | cons m moves ih =>
    refine (ih (r := m.apply r) fun m hm => h m (.tail _ hm)).trans ?_
    exact h m (.head _) r

/-- An answered request emits its record, with all that was written, as the reply has ended it. -/
theorem ended_of_run (hr : r.Unmarked) (h : run moves (admitted r) = some t)
    (answered : t.phase = .answered reply) (dropped : t.handles = []) :
    ∃ (e : Emitter) (o : Occasion) (c : Completed) (last : Record), e.move o ∈ moves ∧
      t.issued = [⟨e, c⟩] ∧ c.Emits o.masked last ∧ Answers moves (admitted r) reply.response ∧
      last = reply.completion.ended o.masked o.trace o.now (written moves r) := by
  obtain ⟨e, o, hmem, issued⟩ := issued_of_run (open_admitted r) h answered dropped
  have hwritten : (written moves r).Unmarked := unmarked_written hr
  exact ⟨e, o, _, _, hmem, issued, Completion.emits_apply hwritten.emitted,
    (answers_of_run h answered).resolve_left nofun, rfl⟩

end Tracked

theorem Request.unmarked_begin (masked : Trace.Mask.Registry) (id : String) (now : Moment)
    (request : Request) : (request.begin masked id now).Unmarked := by
  unfold Request.begin
  split <;> exact ⟨rfl, rfl, rfl, rfl, rfl⟩

/-! ## The verdict -/

/-- The record `last` tells of the reply to a request, for which `r` was written: its verdict is
that of the response, and a fault fails it with its code and text. -/
structure Verdict (o : Occasion) (reply : Reply) (r last : Record) : Prop where
  error : last.outcome = .error ↔ 500 ≤ reply.response.status ∧ reply.response.status ≤ 599
  warn : last.outcome = .warn ↔ 400 ≤ reply.response.status ∧ reply.response.status ≤ 499
  ok : last.outcome = .ok ↔ ¬(400 ≤ reply.response.status ∧ reply.response.status ≤ 599)
  failed : ∀ f, reply.Faults f → last.errorCode = some f.code ∧
    last.errorMessage = some f.message ∧ last.stackTrace = some o.trace
  unfailed : (∀ f, ¬reply.Faults f) →
    last.errorCode = none ∧ last.errorMessage = none ∧ last.stackTrace = none
  reported : ∀ f, reply.Reports f →
    last.errorCode = none ∧ last.errorMessage = none ∧ last.stackTrace = none ∧
    last.scope.context.get? "error_code" = some ((r.scope.context.get? "error_code").getD [] ++
      Record.written o.masked "error_code" [f.code])

theorem verdict_ended {o : Occasion} (hr : r.Unmarked) :
    Verdict o reply r (reply.completion.ended o.masked o.trace o.now r) := by
  obtain ⟨elapsed, hended⟩ := reply.completion.ended_eq o.masked o.trace o.now hr
  rw [hended, reply.status_completion]
  exact
  { error := Outcome.ofStatus_eq_error_iff
    warn := Outcome.ofStatus_eq_warn_iff
    ok := Outcome.ofStatus_eq_ok_iff
    failed := fun f hf => by
      rw [Reply.fault?_completion.2 hf]
      exact ⟨rfl, rfl, rfl⟩
    unfailed := fun hnone => by
      rw [Reply.fault?_completion_eq_none hnone]
      exact ⟨rfl, rfl, rfl⟩
    reported := fun f hf => by
      refine ⟨congrArg (Option.map _) hf.fault?, congrArg (Option.map _) hf.fault?,
        congrArg (Option.map _) hf.fault?, (Trace.Scope.context_noting ..).trans ?_⟩
      rw [Completion.noted_errorCode hf.fault? hf.failure]
      rfl }

/-- A record without a status in its context gets one. -/
theorem status_ended (hr : r.Unmarked) (hnone : r.scope.context.get? "status" = none)
    (c : Completion) : (c.ended masked trace now r).scope.context.get? "status" =
      some [if masked.isMasked "status" then Trace.Mask.mask else toString c.recordedStatus] := by
  obtain ⟨elapsed, hended⟩ := c.ended_eq masked trace now hr
  rw [hended]
  refine (Trace.Scope.context_noting ..).trans ?_
  rw [Completion.noted_status, hnone, if_neg (List.cons_ne_nil _ [])]
  cases h : masked.isMasked "status" <;> simp [Record.written, h]

open Tracked

/-- **The response decides the verdict.** A tracked request that is answered, and whose record
nobody has any more, has emitted one record, with the verdict of the response that was sent. It is
failed, with the code, the text and a stack, if the handler panicked or reported a failure that is
answered as an error of the server, and by nothing else; any other failure that is reported is told
by its code. A failure that is no application error is answered as a panic is, whatever its text. -/
theorem verdict_of_run (masked : Trace.Mask.Registry) (id : String) (now : Moment)
    (request : Request) (moves : List Move) (s : Tracked) (reply : Reply)
    (h : run moves (admitted (request.begin masked id now)) = some s)
    (answered : s.phase = .answered reply) (dropped : s.handles = []) :
    (∃ (e : Emitter) (o : Occasion) (c : Completed) (last : Record), e.move o ∈ moves ∧
      s.issued = [⟨e, c⟩] ∧ c.Emits o.masked last ∧
      Answers moves (admitted (request.begin masked id now)) reply.response ∧
      Verdict o reply (written moves (request.begin masked id now)) last) ∧
    ∀ message, (Reply.responded (.ofFailure (.generic message))).response = .panicked ∧
      (Reply.responded (.ofFailure (.unknown message))).response = .panicked := by
  have hr := request.unmarked_begin masked id now
  obtain ⟨e, o, c, last, hmem, issued, emits, answers, rfl⟩ := ended_of_run hr h answered dropped
  exact ⟨⟨e, o, c, _, hmem, issued, emits, answers, verdict_ended (unmarked_written hr)⟩,
    fun message => ⟨rfl, rfl⟩⟩

/-- A handler that keeps its handle past a failure that it reports. -/
def heldPastFailure : List Move :=
  [.extract, .write 0 (.scope (.write (.put .empty "table" ["orders"]))),
    .finish (.responded (.ofFailure (.app ⟨"NOT_READY", 503, "not ready", "main.rs:1"⟩))),
    .complete ⟨.empty, "middleware", ⟨0, 0⟩⟩, .drop 0 ⟨.empty, "handle", ⟨0, 0⟩⟩]

theorem verdict_heldPastFailure : ∃ (s : Tracked) (c : Completed) (last : Record),
    run heldPastFailure
      (admitted (Request.begin .empty "id" ⟨0, 0⟩ ⟨"GET", "/h/held", [], none⟩)) = some s ∧
    s.issued = [⟨.handle 0, c⟩] ∧ c.Emits .empty last ∧ last.outcome = .error ∧
    last.errorCode = some "NOT_READY" ∧ last.errorMessage = some "not ready" ∧
    last.stackTrace = some "handle" := by
  obtain ⟨⟨e, o, c, last, hmem, issued, emits, -, verdict⟩, -⟩ :=
    verdict_of_run .empty "id" ⟨0, 0⟩ ⟨"GET", "/h/held", [], none⟩ heldPastFailure _ _ rfl rfl rfl
  cases issued
  obtain rfl : o = ⟨.empty, "handle", ⟨0, 0⟩⟩ := by
    simpa [heldPastFailure, Emitter.move] using hmem
  obtain ⟨code, message, stack⟩ := verdict.failed _ (.reported rfl (by decide))
  exact ⟨_, _, last, rfl, rfl, emits, verdict.error.2 (by decide), code, message, stack⟩

/-- A handler that leaves the record in its slot. -/
def untouched (masked : Trace.Mask.Registry) (reply : Reply) : List Move :=
  [.finish reply, .complete ⟨masked, "trace", ⟨0, 0⟩⟩]

theorem run_untouched (masked : Trace.Mask.Registry) (request : Request) (reply : Reply) :
    let r := request.begin masked "id" ⟨0, 0⟩
    let last := reply.completion.ended masked "trace" ⟨0, 0⟩ r
    ∃ (s : Tracked) (c : Completed), run (untouched masked reply) (admitted r) = some s ∧
      s.issued = [⟨.middleware, c⟩] ∧ c.Emits masked last := by
  intro r last
  have answer : (Handoff.holding r).answer masked "trace" ⟨0, 0⟩ reply = _ :=
    Handoff.answer_holding reply
  refine ⟨⟨⟨none, none⟩, [], 0, .answered reply, _⟩,
    reply.completion.apply masked "trace" ⟨0, 0⟩ r, ?_, rfl,
    Completion.emits_apply (request.emitted_begin masked "id" ⟨0, 0⟩)⟩
  simp [untouched, run, step, admitted, answer, issue]

/-- The code of a failure is a context value as any other: under a masked name it is masked. -/
theorem verdict_maskedCode :
    let masked : Trace.Mask.Registry := .add .empty "error_code"
    let f : Failure := .app (.notFound "no" "main.rs:1")
    ∃ (s : Tracked) (c : Completed) (last : Record),
      run (untouched masked (.responded (.ofFailure f)))
        (admitted (Request.begin masked "id" ⟨0, 0⟩ ⟨"GET", "/h/missing", [], none⟩)) = some s ∧
      s.issued = [⟨.middleware, c⟩] ∧ c.Emits masked last ∧
      f.code = "NOT_FOUND" ∧ last.scope.context.get? "error_code" = some ["******"] := by
  intro masked f
  obtain ⟨s, c, hrun, issued, emits⟩ :=
    run_untouched masked ⟨"GET", "/h/missing", [], none⟩ (.responded (.ofFailure f))
  exact ⟨s, c, _, hrun, issued, emits, rfl, by decide⟩

/-- **One status for each request.** If no move of the run touches the status in the context, the
record that is emitted has exactly one: that of its fault, if there is one, and that of the response
otherwise, so it is that of the response unless a fault has another. -/
theorem status_of_run (masked : Trace.Mask.Registry) (id : String) (now : Moment)
    (request : Request) (moves : List Move) (s : Tracked) (reply : Reply)
    (h : run moves (admitted (request.begin masked id now)) = some s)
    (answered : s.phase = .answered reply) (dropped : s.handles = [])
    (spares : ∀ m ∈ moves, m.Spares "status") :
    ∃ (e : Emitter) (o : Occasion) (c : Completed) (last : Record) (status : Nat),
      e.move o ∈ moves ∧ s.issued = [⟨e, c⟩] ∧ c.Emits o.masked last ∧
      Answers moves (admitted (request.begin masked id now)) reply.response ∧
      last.scope.context.get? "status" =
        some [if o.masked.isMasked "status" then Trace.Mask.mask else toString status] ∧
      (∀ f, reply.Faults f → status = f.status) ∧
      ((∀ f, reply.Faults f → f.status = reply.response.status) →
        status = reply.response.status) := by
  have hr := request.unmarked_begin masked id now
  have hnone : (written moves (request.begin masked id now)).scope.context.get? "status" = none :=
    (context_written spares).trans (request.context_begin masked id now (by decide) (by decide))
  obtain ⟨e, o, c, last, hmem, issued, emits, answers, rfl⟩ := ended_of_run hr h answered dropped
  refine ⟨e, o, c, _, reply.completion.recordedStatus, hmem, issued, emits, answers,
    status_ended (unmarked_written hr) hnone _, ?_, ?_⟩
  · intro f hf
    rw [Completion.recordedStatus, Reply.fault?_completion.2 hf]
    rfl
  · intro hsame
    rw [Completion.recordedStatus]
    cases hfault : reply.completion.fault? with
    | none => exact reply.status_completion
    | some f => exact hsame f (Reply.fault?_completion.1 hfault)

theorem status_heldPastFailure : ∃ (s : Tracked) (c : Completed) (last : Record),
    run heldPastFailure
      (admitted (Request.begin .empty "id" ⟨0, 0⟩ ⟨"GET", "/h/held", [], none⟩)) = some s ∧
    s.issued = [⟨.handle 0, c⟩] ∧ c.Emits .empty last ∧
    last.scope.context.get? "status" = some ["503"] := by
  have spares : ∀ m ∈ heldPastFailure, m.Spares "status" := by
    intro m hm r
    simp only [heldPastFailure, List.mem_cons, List.not_mem_nil, or_false] at hm
    rcases hm with rfl | rfl | rfl | rfl | rfl
    · rfl
    · exact KeyMap.get?_alter_of_ne _ (by decide)
    all_goals rfl
  obtain ⟨e, o, c, last, status, hmem, issued, emits, -, context, fault, -⟩ :=
    status_of_run .empty "id" ⟨0, 0⟩ ⟨"GET", "/h/held", [], none⟩ heldPastFailure _ _ rfl rfl rfl
      spares
  cases issued
  obtain rfl : o = ⟨.empty, "handle", ⟨0, 0⟩⟩ := by
    simpa [heldPastFailure, Emitter.move] using hmem
  cases fault _ (.reported rfl (by decide))
  exact ⟨_, _, last, rfl, rfl, emits, context⟩

/-- A panic with an application error is answered as an internal error and recorded with the status
of the error; and under a masked name the status is masked. -/
theorem status_differs :
    let gone : Reply := .panicked (.app ⟨"GONE", 404, "gone", "main.rs:1"⟩)
    let fine : Reply := .responded (.plain 200 "")
    let masked : Trace.Mask.Registry := .add .empty "status"
    (∃ (s : Tracked) (c : Completed) (last : Record),
      run (untouched .empty gone)
        (admitted (Request.begin .empty "id" ⟨0, 0⟩ ⟨"GET", "/h/gone", [], none⟩)) = some s ∧
      s.issued = [⟨.middleware, c⟩] ∧ c.Emits .empty last ∧
      gone.response.status = 500 ∧ last.scope.context.get? "status" = some ["404"]) ∧
    ∃ (s : Tracked) (c : Completed) (last : Record),
      run (untouched masked fine)
        (admitted (Request.begin masked "id" ⟨0, 0⟩ ⟨"GET", "/h/fine", [], none⟩)) = some s ∧
      s.issued = [⟨.middleware, c⟩] ∧ c.Emits masked last ∧
      fine.response.status = 200 ∧ last.scope.context.get? "status" = some ["******"] := by
  intro gone fine masked
  constructor
  · obtain ⟨s, c, hrun, issued, emits⟩ :=
      run_untouched .empty ⟨"GET", "/h/gone", [], none⟩ gone
    exact ⟨s, c, _, hrun, issued, emits, rfl, by decide⟩
  · obtain ⟨s, c, hrun, issued, emits⟩ :=
      run_untouched masked ⟨"GET", "/h/fine", [], none⟩ fine
    exact ⟨s, c, _, hrun, issued, emits, rfl, by decide⟩

end Http
end Logbook
