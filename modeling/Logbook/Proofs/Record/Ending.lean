import Logbook.Record.Line

/-! What the end of a unit does to its record. Marking, ending and emitting add to what was written
before and take nothing away (`Keeps`); a record that was not emitted yet gives its line, and the
line is that of the record as it was ended (`emit_finish`). -/

namespace Logbook

/-- What a step that ends a record finds around it: the masked names, the stack of the place and the
clocks. -/
structure Occasion where
  masked : Trace.Mask.Registry
  trace : String
  now : Moment

namespace Record

variable {masked : Trace.Mask.Registry} {r s t : Record} {key other : String}

/-- All that was written into `r` is in `s`: the same identity, bodies and stats, and under each
context key the same values in the same order, perhaps with more behind them. -/
structure Keeps (r s : Record) : Prop where
  begun : s.begun = r.begun
  actionType : s.actionType = r.actionType
  id : s.id = r.id
  action : s.action = r.action
  refId : s.refId = r.refId
  client : s.client = r.client
  requestBody : s.requestBody = r.requestBody
  responseBody : s.responseBody = r.responseBody
  stats : s.scope.stats = r.scope.stats
  context : ∀ {key values}, r.scope.context.get? key = some values →
    ∃ more, s.scope.context.get? key = some (values ++ more)

/-- Records with the same data up to their verdict. -/
theorem Keeps.of_scope (begun : s.begun = r.begun) (actionType : s.actionType = r.actionType)
    (refId : s.refId = r.refId) (client : s.client = r.client)
    (requestBody : s.requestBody = r.requestBody) (responseBody : s.responseBody = r.responseBody)
    (scope : s.scope = r.scope) : r.Keeps s where
  begun := begun
  actionType := actionType
  id := by rw [Record.id, Record.id, scope]
  action := by rw [Record.action, Record.action, scope]
  refId := refId
  client := client
  requestBody := requestBody
  responseBody := responseBody
  stats := by rw [scope]
  context h := ⟨[], by rw [scope, h, List.append_nil]⟩

theorem Keeps.refl (r : Record) : r.Keeps r := .of_scope rfl rfl rfl rfl rfl rfl rfl

theorem Keeps.trans (H : r.Keeps s) (H' : s.Keeps t) : r.Keeps t where
  begun := H'.begun.trans H.begun
  actionType := H'.actionType.trans H.actionType
  id := H'.id.trans H.id
  action := H'.action.trans H.action
  refId := H'.refId.trans H.refId
  client := H'.client.trans H.client
  requestBody := H'.requestBody.trans H.requestBody
  responseBody := H'.responseBody.trans H.responseBody
  stats := H'.stats.trans H.stats
  context h := by
    obtain ⟨more, h⟩ := H.context h
    obtain ⟨evenMore, h⟩ := H'.context h
    exact ⟨more ++ evenMore, by rw [h, List.append_assoc]⟩

/-- The values of one put as they are written. -/
def written (masked : Trace.Mask.Registry) (key : String) (values : List String) : List String :=
  if masked.isMasked key then values.map fun _ => Trace.Mask.mask else values

theorem context_put_self (values : List String) :
    (r.put masked key values).scope.context.get? key =
      some ((r.scope.context.get? key).getD [] ++ written masked key values) :=
  KeyMap.get?_alter_self _

theorem context_put_of_ne (values : List String) (h : other ≠ key) :
    (r.put masked key values).scope.context.get? other = r.scope.context.get? other :=
  KeyMap.get?_alter_of_ne _ h

theorem keeps_put (values : List String) : r.Keeps (r.put masked key values) where
  begun := rfl
  actionType := rfl
  id := rfl
  action := rfl
  refId := rfl
  client := rfl
  requestBody := rfl
  responseBody := rfl
  stats := rfl
  context {other old} h := by
    by_cases heq : other = key
    · subst heq
      exact ⟨written masked other values, by rw [context_put_self, h, Option.getD_some]⟩
    · exact ⟨[], by rw [context_put_of_ne _ heq, h, List.append_nil]⟩

theorem keeps_fail (code message trace : String) : r.Keeps (r.fail code message trace) :=
  .of_scope rfl rfl rfl rfl rfl rfl rfl

theorem keeps_escalate (o : Outcome) : r.Keeps (r.escalate o) :=
  .of_scope rfl rfl rfl rfl rfl rfl rfl

theorem keeps_finish (now : Moment) : r.Keeps (r.finish now) := by
  unfold finish
  split
  · exact .refl r
  · exact .of_scope rfl rfl rfl rfl rfl rfl rfl

theorem keeps_fault (failure : Failure) (trace : String) :
    r.Keeps (r.fault masked failure trace) := by
  unfold fault
  have status : r.Keeps (r.put masked "status" [toString failure.status]) := keeps_put _
  split
  · exact status.trans ((keeps_put _).trans (keeps_fail ..))
  · exact status.trans (keeps_fail ..)

@[simp] theorem emitted_put (values : List String) :
    (r.put masked key values).emitted = r.emitted := rfl

@[simp] theorem emitted_escalate (o : Outcome) : (r.escalate o).emitted = r.emitted := rfl

@[simp] theorem emitted_fault (failure : Failure) (trace : String) :
    (r.fault masked failure trace).emitted = r.emitted := by
  unfold fault
  split <;> rfl

@[simp] theorem emitted_finish (now : Moment) : (r.finish now).emitted = r.emitted := by
  unfold finish
  split <;> rfl

theorem errorCode_fault (failure : Failure) (trace : String) :
    (r.fault masked failure trace).errorCode = some failure.code := by
  unfold fault
  split <;> rfl

theorem fault_withTrace {f : Failure} (trace : String) {trace' : String} :
    r.fault masked f trace' = { r.fault masked f trace with stackTrace := some trace' } := by
  unfold fault
  split <;> rfl

theorem finish_withTrace {now : Moment} {trace : Option String} :
    ({ r with stackTrace := trace }).finish now = { r.finish now with stackTrace := trace } := by
  cases h : r.elapsed <;> simp [finish, h]

/-- Only the first end counts. -/
theorem finish_finish (now later : Moment) : (r.finish now).finish later = r.finish now := by
  cases h : r.elapsed with
  | none => simp [finish, h]
  | some elapsed => simp [finish, h]

/-- A record that was ended gives its line once; its scope is released after that. -/
theorem emit_finish (now : Moment) (h : r.emitted = false) :
    (r.finish now).emit masked now =
      (some ⟨(r.finish now).line masked, (r.finish now).outcome⟩,
        { r.finish now with emitted := true, scope := (r.finish now).scope.release }) := by
  rw [emit, emitted_finish, h, if_neg Bool.false_ne_true, finish_finish]

end Record

end Logbook
