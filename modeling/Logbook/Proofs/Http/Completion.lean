import Logbook.Http.Handoff
import Logbook.Proofs.Record.Ending

/-! The completion of a request. A record that was not emitted is marked with the answer, ended and
emitted in one go (`apply_eq`), and keeps what the handlers wrote. It makes no difference whether a
reply finds the record in its slot or leaves a completion for it (`answer_holding`): a panic that is
a fault of the record at once is the same fault told later. -/

namespace Logbook.Http

variable {masked : Trace.Mask.Registry} {trace : String} {now : Moment} {r : Record}

/-- The completion that a reply leads to. -/
def Reply.completion : Reply → Completion
  | .responded response => ⟨response.status, response.failure⟩
  | .panicked payload => ⟨Response.panicked.status, some (.ofPayload payload)⟩

/-- The response that a reply leads to. -/
def Reply.response : Reply → Response
  | .responded response => { response with failure := none }
  | .panicked _ => .panicked

/-- The record was emitted once, as `last`, and keeps of it all but its scope. -/
structure Completed.Emits (masked : Trace.Mask.Registry) (last : Record) (c : Completed) :
    Prop where
  emission : c.emission = some ⟨last.line masked, last.outcome⟩
  record : c.record = { last with emitted := true, scope := last.scope.release }

namespace Completion

variable {c : Completion}

/-- The record as the completion marks and ends it, before it is emitted. -/
def ended (masked : Trace.Mask.Registry) (trace : String) (now : Moment) (c : Completion)
    (r : Record) : Record :=
  ((c.mark masked trace r).1.escalate (.ofStatus c.status)).finish now

theorem keeps_mark : r.Keeps (c.mark masked trace r).1 := by
  unfold mark
  split
  · split
    · exact r.keeps_fault _ _
    · exact (r.keeps_put _).trans (Record.keeps_put _)
  · split
    · exact r.keeps_put _
    · exact .refl r

theorem emitted_mark : (c.mark masked trace r).1.emitted = r.emitted := by
  unfold mark
  split
  · split <;> simp
  · split <;> simp

theorem keeps_ended : r.Keeps (c.ended masked trace now r) :=
  keeps_mark.trans ((Record.keeps_escalate _).trans (Record.keeps_finish now))

theorem apply_eq (h : r.emitted = false) :
    c.apply masked trace now r =
      let last := c.ended masked trace now r
      ⟨{ last with emitted := true, scope := last.scope.release },
        some ⟨last.line masked, last.outcome⟩, (c.mark masked trace r).2⟩ := by
  have hmark : ((c.mark masked trace r).1.escalate (.ofStatus c.status)).emitted = false := by
    rw [Record.emitted_escalate, emitted_mark, h]
  simp only [apply, ended, Record.emit_finish now hmark]

theorem emits_apply (h : r.emitted = false) :
    (c.apply masked trace now r).Emits masked (c.ended masked trace now r) := by
  rw [apply_eq h]
  exact ⟨rfl, rfl⟩

end Completion

namespace Handoff

/-- A reply that finds the record in its slot completes it. -/
theorem answer_holding (reply : Reply) :
    (holding r).answer masked trace now reply =
      (reply.response, ⟨none, none⟩, some (reply.completion.apply masked trace now r)) := by
  cases reply with
  | responded response => rfl
  | panicked payload =>
    have hcode : (r.fault masked (.ofPayload payload) trace).errorCode =
        some (Failure.ofPayload payload).code := Record.errorCode_fault ..
    have hserver : Completion.isServerError Response.panicked.status = true := by decide
    simp only [answer, holding, Reply.response, Reply.completion, Completion.apply,
      Completion.mark, hcode, hserver, Option.isNone_some, if_true, Bool.false_eq_true, if_false]

/-- A reply that finds the record out leaves its completion in the slot. -/
theorem answer_out (reply : Reply) (pending : Option Completion) :
    answer masked trace now reply ⟨none, pending⟩ =
      (reply.response, ⟨none, some reply.completion⟩, none) := by
  cases reply <;> rfl

end Handoff

end Logbook.Http
