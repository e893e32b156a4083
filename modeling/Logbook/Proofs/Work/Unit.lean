import Logbook.Proofs.Work.Executor

/-! What a unit of work leaves. However its body ends, the unit closes with one record (`close_eq`)
that keeps what the body wrote and tells of the failure, if there was one (`told_fault`). On an
executor the worker comes back to the line. -/

namespace Logbook.Work

variable {masked : Trace.Mask.Registry} {trace : String} {now : Moment} {r : Record} {e : Ending}
  {f : Failure} {link : Trace.Link} {id action actionType : String}
  {writes : List Trace.Scope.Write} {edits : List Trace.Scope.Edit}

/-- The record of a unit as it is ended, before it is emitted. -/
def Ending.ended (masked : Trace.Mask.Registry) (trace : String) (now : Moment) (e : Ending)
    (r : Record) : Record := (e.mark masked trace r).1.finish now

/-- The record `s` tells of a failure of the unit with the record `r`: its code and text, the trace,
and behind what the body wrote its status, and its place if it is an application error. -/
structure Told (masked : Trace.Mask.Registry) (trace : String) (f : Failure) (r s : Record) :
    Prop where
  outcome : s.outcome = .error
  errorCode : s.errorCode = some f.code
  errorMessage : s.errorMessage = some f.message
  stackTrace : s.stackTrace = some trace
  status : s.scope.context.get? "status" =
    some ((r.scope.context.get? "status").getD [] ++
      Record.written masked "status" [toString f.status])
  location : ∀ error, f = .app error → s.scope.context.get? "location" =
    some ((r.scope.context.get? "location").getD [] ++
      Record.written masked "location" [error.location])
  unlocated : f.location? = none →
    s.scope.context.get? "location" = r.scope.context.get? "location"
  context : ∀ key, key ≠ "status" → key ≠ "location" →
    s.scope.context.get? key = r.scope.context.get? key

theorem told_fault : Told masked trace f r (r.fault masked f trace) := by
  have hne : "location" ≠ "status" := by decide
  cases f with
  | app error =>
    exact {
      outcome := Outcome.worst_error _
      errorCode := rfl
      errorMessage := rfl
      stackTrace := rfl
      status := (Record.context_put_of_ne _ hne.symm).trans (Record.context_put_self _)
      location := by
        rintro error ⟨⟩
        refine (Record.context_put_self _).trans ?_
        rw [Record.context_put_of_ne _ hne]
      unlocated := nofun
      context := fun key hstatus hlocation =>
        (Record.context_put_of_ne _ hlocation).trans (Record.context_put_of_ne _ hstatus) }
  | generic message | unknown message =>
    exact {
      outcome := Outcome.worst_error _
      errorCode := rfl
      errorMessage := rfl
      stackTrace := rfl
      status := Record.context_put_self _
      location := nofun
      unlocated := fun _ => Record.context_put_of_ne _ hne
      context := fun key hstatus _ => Record.context_put_of_ne _ hstatus }

theorem Told.finish {s : Record} (H : Told masked trace f r s) (now : Moment) :
    Told masked trace f r (s.finish now) := by
  unfold Record.finish
  split
  · exact H
  · exact { H with }

/-! ## The end of a unit -/

theorem keeps_ended : r.Keeps (e.ended masked trace now r) := by
  unfold Ending.ended Ending.mark
  split
  · exact r.keeps_finish now
  · exact (r.keeps_fault _ trace).trans (Record.keeps_finish now)

theorem ended_of_none (h : e.failure? = none) : e.ended masked trace now r = r.finish now := by
  rw [Ending.ended, Ending.mark, h]

theorem ended_of_some (h : e.failure? = some f) :
    e.ended masked trace now r = (r.fault masked f trace).finish now := by
  rw [Ending.ended, Ending.mark, h]

theorem emitted_mark : (e.mark masked trace r).1.emitted = r.emitted := by
  unfold Ending.mark
  split <;> simp

theorem emitted_ended : (e.ended masked trace now r).emitted = r.emitted :=
  (Record.emitted_finish now).trans emitted_mark

/-- A unit closes by emitting its record as it was ended. -/
theorem close_eq (h : r.emitted = false) :
    close masked trace now e r =
      let last := e.ended masked trace now r
      ⟨{ last with emitted := true, scope := last.scope.release },
        some ⟨last.line masked, last.outcome⟩, (e.mark masked trace r).2⟩ := by
  simp only [close, Ending.ended, Record.emit_finish now (emitted_mark.trans h)]

/-- Writes leave the unit its identity. -/
theorem underway_write :
    (underway masked link id now action actionType (writes.map .write)).id = id ∧
      (underway masked link id now action actionType (writes.map .write)).action =
        Record.childAction link action := by
  simp only [underway, Record.id, Record.action, Trace.Scope.editAll_write,
    Trace.Scope.id_writeAll, Trace.Scope.action_writeAll]
  exact ⟨rfl, rfl⟩

/-- A panic with an application error leaves the record that the error itself would leave. -/
theorem ended_panicked (error : AppError) (trace' : String) :
    (Ending.failed (.app error)).ended masked trace' now r =
      { (Ending.panicked (.app error)).ended masked trace now r with
        stackTrace := some trace' } := by
  rw [ended_of_some rfl, ended_of_some rfl, ← Record.finish_withTrace]
  exact congrArg (Record.finish now) (Record.fault_withTrace trace)

/-- A worker whose unit has ended stands in line again, whatever the ending and whatever the other
workers do. -/
theorem Executor.serve_after_finish {s : Executor} {before after : List Busy} {worker : Nat}
    {job : Job} (e : Ending) (o : Occasion)
    (h : s.busy = before ++ ⟨worker, job, some r⟩ :: after) :
    ∃ t u, Perform s t ∧ t.busy = before ++ after ∧
      t.finished = s.finished ++ [⟨job, close o.masked o.trace o.now e r⟩] ∧
      Serve t u ∧ u.crew.line = s.crew.line ++ [worker] ∧ u.pool.queue = s.pool.queue := by
  have hjoin : (s.arriving ++ [worker] : List Nat) = s.arriving ++ worker :: [] := rfl
  exact ⟨_, _, .finish e o h, rfl, rfl, .join hjoin, rfl, rfl⟩

/-- **One record for each unit of work.** Whatever a body does to its scope and however it ends, its
unit closes and emits exactly one record, with the unit's link and all that was written, and with
the unit's identity and action unless the body put another scope in place of its own. It is ok if
the body returned; otherwise it is an error that tells of the failure, and a panic with an
application error tells the same as the error itself. On an executor the worker comes back to the
line. A stack that was captured is never an empty text. -/
theorem execute_ran (masked later : Trace.Mask.Registry) (trace : String) (link : Trace.Link)
    (id : String) (begun ended : Moment) (action actionType : String)
    (edits : List Trace.Scope.Edit) (e : Ending) (htrace : trace ≠ "") :
    let r := underway masked link id begun action actionType edits
    ∃ closed last,
      execute masked later trace link id begun ended action actionType (.ran edits e) =
        .ok closed ∧
      closed.emission = some ⟨last.line later, last.outcome⟩ ∧
      (∀ masked now, (closed.record.emit masked now).1 = none) ∧
      (∀ writes : List Trace.Scope.Write, edits = writes.map .write →
        last.id = id ∧ last.action = Record.childAction link action) ∧
      last.actionType = actionType ∧ last.refId = (if link.hasRoot then some link.id else none) ∧
      r.Keeps last ∧
      (e.failure? = none → last.outcome = .ok ∧ last.errorCode = none ∧ last.scope = r.scope) ∧
      (∀ f, e.failure? = some f →
        Told later trace f r last ∧ ∃ text, last.stackTrace = some text ∧ text ≠ "") ∧
      (∀ error trace', e = .panicked (.app error) → ∃ returned,
        execute masked later trace' link id begun ended action actionType
          (.ran edits (.failed (.app error))) = .ok returned ∧
        returned.emission =
          some ⟨({ last with stackTrace := some trace' }).line later, last.outcome⟩) ∧
      ∀ (s : Executor) (before after : List Busy) (worker : Nat) (job : Job),
        s.busy = before ++ ⟨worker, job, some r⟩ :: after →
        ∃ t u, Executor.Perform s t ∧ t.busy = before ++ after ∧
          t.finished = s.finished ++ [⟨job, closed⟩] ∧
          Executor.Serve t u ∧ u.crew.line = s.crew.line ++ [worker] ∧
          u.pool.queue = s.pool.queue := by
  intro r
  have hr : r.emitted = false := rfl
  have keeps : r.Keeps (e.ended later trace ended r) := keeps_ended
  refine ⟨_, e.ended later trace ended r, rfl, ?_, ?_, ?_, keeps.actionType, keeps.refId, keeps,
    ?_, ?_, ?_, ?_⟩
  · rw [close_eq hr]
  · intro masked now
    rw [close_eq hr]
    rfl
  · rintro writes rfl
    exact ⟨keeps.id.trans underway_write.1, keeps.action.trans underway_write.2⟩
  · intro hnone
    rw [ended_of_none hnone]
    exact ⟨rfl, rfl, rfl⟩
  · intro f hf
    rw [ended_of_some hf]
    have told : Told later trace f r ((r.fault later f trace).finish ended) :=
      told_fault.finish ended
    exact ⟨told, trace, told.stackTrace, htrace⟩
  · rintro error trace' rfl
    refine ⟨_, rfl, ?_⟩
    rw [close_eq hr, ended_panicked error trace']
  · intro s before after worker job h
    exact Executor.serve_after_finish e ⟨later, trace, ended⟩ h

theorem execute_ran_panicked :
    "trace" ≠ "" ∧ ∃ (closed : Closed) (last : Record),
      execute .empty .empty "trace" ⟨"root", "job"⟩ "id" ⟨0, 0⟩ ⟨0, 1⟩ "work" taskType
        (.ran [.write (.put .empty "table" ["orders"])] (.panicked (.text "boom"))) = .ok closed ∧
      closed.emission = some ⟨last.line .empty, .error⟩ ∧ last.action = "job:task:work" ∧
      last.errorCode = some "INTERNAL_ERROR" ∧ last.errorMessage = some "boom" := by
  have htrace : "trace" ≠ "" := by decide
  obtain ⟨closed, last, hclosed, hemission, -, hown, -, -, -, -, hfailed, -⟩ :=
    execute_ran .empty .empty "trace" ⟨"root", "job"⟩ "id" ⟨0, 0⟩ ⟨0, 1⟩ "work" taskType
      [.write (.put .empty "table" ["orders"])] (.panicked (.text "boom")) htrace
  obtain ⟨told, -⟩ := hfailed _ rfl
  refine ⟨htrace, closed, last, hclosed, ?_, (hown [_] rfl).2, told.errorCode, told.errorMessage⟩
  rw [hemission, told.outcome]

/-- The status of a failure is a context value as any other: under a masked name it is masked. -/
theorem execute_maskedStatus :
    let masked : Trace.Mask.Registry := .add .empty "status"
    ∃ (closed : Closed) (last : Record),
      execute masked masked "trace" ⟨"", ""⟩ "id" ⟨0, 0⟩ ⟨0, 1⟩ "work" taskType
        (.ran [.write (.put masked "table" ["orders"])]
          (.failed (.app ⟨"QUOTA_EXCEEDED", 429, "too many", "main.rs:1"⟩))) = .ok closed ∧
      closed.emission = some ⟨last.line masked, last.outcome⟩ ∧
      last.scope.context.get? "status" = some ["******"] ∧
      last.scope.context.get? "status" ≠ some ["429"] := by
  intro masked
  refine ⟨_, _, rfl, congrArg Closed.emission (close_eq rfl), ?_, ?_⟩
  · decide
  · decide

end Logbook.Work
