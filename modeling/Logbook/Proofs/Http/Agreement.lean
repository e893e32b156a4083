import Logbook.Proofs.Http.Verdict

/-! The two ways to complete a request. A handle that is dropped before the answer leaves the record
to the middleware; one that is dropped after it completes the record itself. After the same writes
and with the same reply the two records are alike (`completions_agree`). Completions are the same on
both ways; only the masked names are those of the moment when the record is completed. -/

namespace Logbook

variable {masked other : Trace.Mask.Registry} {r s : Record} {agree : String → Prop}

/-- Records that differ only in their identifiers, their times and the text of a stack, and under
context keys that are left out of the comparison. -/
structure Record.Alike (agree : String → Prop) (r s : Record) : Prop where
  action : s.action = r.action
  actionType : s.actionType = r.actionType
  refId : s.refId = r.refId
  client : s.client = r.client
  requestBody : s.requestBody = r.requestBody
  responseBody : s.responseBody = r.responseBody
  context : ∀ key, agree key → s.scope.context.get? key = r.scope.context.get? key
  stats : ∀ key, s.scope.stats.get? key = r.scope.stats.get? key
  outcome : s.outcome = r.outcome
  errorCode : s.errorCode = r.errorCode
  errorMessage : s.errorMessage = r.errorMessage
  stackTrace : s.stackTrace.isSome = r.stackTrace.isSome

namespace Record

/-- The record after writes into its scope. -/
def writeAll (writes : List Trace.Scope.Write) (r : Record) : Record :=
  { r with scope := r.scope.writeAll writes }

theorem Alike.writeAll (H : r.Alike agree s) (writes : List Trace.Scope.Write) :
    (r.writeAll writes).Alike agree (s.writeAll writes) :=
  { H with
    action := by
      simpa only [Record.action, Record.writeAll, Trace.Scope.action_writeAll] using H.action
    context := by
      intro key hkey
      simp only [Record.writeAll, Trace.Scope.context_writeAll, H.context key hkey]
    stats := by
      intro key
      simp only [Record.writeAll, Trace.Scope.stats_writeAll, H.stats key] }

theorem Unmarked.writeAll (hr : r.Unmarked) (writes : List Trace.Scope.Write) :
    (r.writeAll writes).Unmarked := { hr with }

end Record

namespace Http

variable {trace trace' : String} {now now' : Moment}

theorem Request.alike_begin (masked : Trace.Mask.Registry) (id id' : String) (now now' : Moment)
    (request : Request) :
    (request.begin masked id now).Alike (fun _ => True) (request.begin masked id' now') := by
  unfold Request.begin
  split <;> exact ⟨rfl, rfl, rfl, rfl, rfl, rfl, fun _ _ => rfl, fun _ => rfl, rfl, rfl, rfl, rfl⟩

namespace Completion

/-- The context keys of the notes of completions. -/
def noteKeys : List String := ["status", "location", "error_code"]

theorem mem_noteKeys {c : Completion} {note : String × String} (h : note ∈ c.notes) :
    note.1 ∈ noteKeys := by
  have sub : c.notes.map (·.1) ⊆ noteKeys := by
    unfold notes
    cases c.fault? with
    | some f => cases f <;> simp [Failure.notes, Failure.location?, noteKeys]
    | none => cases c.failure <;> simp [noteKeys]
  exact sub (List.mem_map_of_mem h)

theorem noted_eq_nil {c : Completion} {key : String} (h : key ∉ noteKeys) :
    Trace.Scope.noted key c.notes = [] := by
  rw [Trace.Scope.noted, List.map_eq_nil_iff, List.filter_eq_nil_iff]
  rintro note hnote heq
  exact h (of_decide_eq_true heq ▸ mem_noteKeys hnote)

/-- Completed on two occasions, records that are alike stay alike: a key that completions note has
to be masked on both occasions or on none. -/
theorem alike_ended {c : Completion} (H : r.Alike (fun _ => True) s) (hr : r.Unmarked)
    (hs : s.Unmarked) :
    (c.ended masked trace now r).Alike
      (fun key => key ∈ noteKeys → masked.isMasked key = other.isMasked key)
      (c.ended other trace' now' s) := by
  obtain ⟨elapsed, hended⟩ := c.ended_eq masked trace now hr
  obtain ⟨elapsed', hended'⟩ := c.ended_eq other trace' now' hs
  rw [hended, hended']
  exact
  { action := by
      simpa only [Record.action, Trace.Scope.action_writeAll] using H.action
    actionType := H.actionType
    refId := H.refId
    client := H.client
    requestBody := H.requestBody
    responseBody := H.responseBody
    context := by
      intro key hkey
      simp only [Trace.Scope.context_noting, H.context key trivial]
      by_cases hmem : key ∈ noteKeys
      · rw [Record.written, Record.written, hkey hmem]
      · rw [noted_eq_nil hmem]
        rfl
    stats := by
      intro key
      simp only [Trace.Scope.stats_noting, H.stats key]
    outcome := rfl
    errorCode := rfl
    errorMessage := rfl
    stackTrace := by rw [Option.isSome_map, Option.isSome_map] }

end Completion

namespace Tracked

variable {t u : Tracked} {before after : List Move} {name : Nat}

theorem run_append (h : run before t = some u) : run (before ++ after) t = run after u := by
  induction before generalizing t with
  | nil =>
    cases h
    rfl
  | cons m before ih =>
    obtain ⟨v, hstep, hrun⟩ := run_cons h
    rw [List.cons_append, run, hstep]
    exact ih hrun

/-- Writes of contexts and stats through a handle. -/
def writing (name : Nat) (writes : List Trace.Scope.Write) : List Move :=
  writes.map fun w => .write name (.scope (.write w))

/-- Writes go into the record that the handle has. -/
theorem run_writing (writes : List Trace.Scope.Write) (ht : t.handles = [⟨name, r⟩]) :
    run (writing name writes) t = some { t with handles := [⟨name, r.writeAll writes⟩] } := by
  induction writes generalizing t r with
  | nil =>
    obtain ⟨slot, handles, fresh, phase, issued⟩ := t
    cases ht
    rfl
  | cons w writes ih =>
    have hstep : step (.write name (.scope (.write w))) t =
        some { t with handles := [⟨name, r.writeAll [w]⟩] } := by
      simp only [step, record?, ht, List.find?_cons, decide_true, Option.map_some, List.map_cons,
        List.map_nil, if_true]
      rfl
    rw [writing, List.map_cons, run, hstep]
    exact ih (t := { t with handles := [⟨name, r.writeAll [w]⟩] }) rfl

/-- The handler has taken the record out. -/
def extracted (r : Record) : Tracked := ⟨⟨none, none⟩, [⟨0, r⟩], 1, .running, []⟩

variable (writes : List Trace.Scope.Write) (reply : Reply) (p o : Occasion)

/-- The handle is dropped before the answer. -/
def early : List Move := .extract :: (writing 0 writes ++ [.drop 0 p, .finish reply, .complete o])

/-- The handle is dropped after the answer. -/
def late : List Move := .extract :: (writing 0 writes ++ [.finish reply, .complete p, .drop 0 o])

theorem run_extract_writing :
    run (.extract :: (writing 0 writes ++ after)) (admitted r) =
      run after (extracted (r.writeAll writes)) := by
  have extract : step .extract (admitted r) = some (extracted r) := rfl
  rw [run, extract, Option.bind_some, run_append (run_writing writes rfl)]
  rfl

theorem run_early : run (early writes reply p o) (admitted r) =
    some ⟨⟨none, none⟩, [], 1, .answered reply,
      [⟨.middleware, reply.completion.apply o.masked o.trace o.now (r.writeAll writes)⟩]⟩ := by
  have drop (r : Record) :
      step (.drop 0 p) (extracted r) = some ⟨.holding r, [], 1, .running, []⟩ := rfl
  have complete (r : Record) : step (.complete o) ⟨.holding r, [], 1, .finished reply, []⟩ =
      some ⟨⟨none, none⟩, [], 1, .answered reply,
        [⟨.middleware, reply.completion.apply o.masked o.trace o.now r⟩]⟩ := by
    simp only [step, Handoff.answer_holding]
    rfl
  rw [early, run_extract_writing, run, drop]
  exact congrArg (Option.bind · (run [])) (complete _)

theorem run_late : run (late writes reply p o) (admitted r) =
    some ⟨⟨none, none⟩, [], 1, .answered reply,
      [⟨.handle 0, reply.completion.apply o.masked o.trace o.now (r.writeAll writes)⟩]⟩ := by
  have complete (r : Record) : step (.complete p) { extracted r with phase := .finished reply } =
      some ⟨⟨none, reply.completion⟩, [⟨0, r⟩], 1, .answered reply, []⟩ := by
    simp only [step, extracted, Handoff.answer_out]
    rfl
  rw [late, run_extract_writing]
  exact congrArg (Option.bind · (run [.drop 0 o])) (complete _)

end Tracked

open Tracked

/-- **Both completions tell the same.** Whatever a handler writes through its handle and however it
ends, one record is emitted whether the handle is dropped before the answer or after it, and the two
are alike. Context values of the completion itself are alike if their keys are masked at both
moments or at none. -/
theorem completions_agree (masked : Trace.Mask.Registry) (id id' : String) (now now' : Moment)
    (request : Request) (writes : List Trace.Scope.Write) (reply : Reply) (p o p' o' : Occasion) :
    ∃ (s t : Tracked) (c d : Completed) (first last : Record),
      run (early writes reply p o) (admitted (request.begin masked id now)) = some s ∧
      s.issued = [⟨.middleware, c⟩] ∧ c.Emits o.masked first ∧
      run (late writes reply p' o') (admitted (request.begin masked id' now')) = some t ∧
      t.issued = [⟨.handle 0, d⟩] ∧ d.Emits o'.masked last ∧
      first.Alike (fun key => key ∈ Completion.noteKeys →
        o.masked.isMasked key = o'.masked.isMasked key) last := by
  have hr := (request.unmarked_begin masked id now).writeAll writes
  have hs := (request.unmarked_begin masked id' now').writeAll writes
  have alike := (request.alike_begin masked id id' now now').writeAll writes
  exact ⟨_, _, _, _, _, _, run_early .., rfl, Completion.emits_apply hr.emitted,
    run_late .., rfl, Completion.emits_apply hs.emitted, Completion.alike_ended alike hr hs⟩

/-- A name that is registered while a handle is held is masked in the one record only. -/
theorem completions_differ :
    let fine : Reply := .responded (.plain 200 "")
    let o : Occasion := ⟨.empty, "trace", ⟨0, 0⟩⟩
    let o' : Occasion := { o with masked := .add .empty "status" }
    let r := Request.begin .empty "id" ⟨0, 0⟩ ⟨"GET", "/h/fine", [], none⟩
    ∃ (s t : Tracked) (c d : Completed) (first last : Record),
      run (early [] fine o o) (admitted r) = some s ∧ s.issued = [⟨.middleware, c⟩] ∧
      c.Emits o.masked first ∧
      run (late [] fine o o') (admitted r) = some t ∧ t.issued = [⟨.handle 0, d⟩] ∧
      d.Emits o'.masked last ∧
      first.scope.context.get? "status" = some ["200"] ∧
      last.scope.context.get? "status" = some ["******"] := by
  intro fine o o' r
  refine ⟨_, _, _, _, _, _, run_early .., rfl, Completion.emits_apply rfl, run_late .., rfl,
    Completion.emits_apply rfl, ?_, ?_⟩
  · decide
  · decide

end Http
end Logbook
