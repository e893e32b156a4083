import Logbook.Proofs.Mask.Orders
import Logbook.Proofs.Record.History

/-! All logs of a run together with the metrics. Any log is changed at any time, and other parts of
the service measure in between. An output finds the masked names in the order of its moment; a line
depends on that order only where a value of a body runs on into another key (`Shows.anyOrder`). -/

namespace Logbook.Record

open Change

/-- A log from its beginning. -/
structure Log where
  begun : Record
  origin : begun.Begun
  changes : List Change

namespace Log

def record (l : Log) : Record := state l.begun l.changes

def emitted (l : Log) : List Emission := emissions l.begun l.changes

def change (c : Change) (l : Log) : Log := { l with changes := l.changes ++ [c] }

end Log

/-- What a log keeps to, whatever was done to it. -/
structure Log.Keeping (l : Log) : Prop where
  id : l.record.id = l.begun.id
  refId : l.record.refId = l.begun.refId
  actionType : l.record.actionType = l.begun.actionType
  /-- The verdict is the most severe one that was raised. -/
  outcome_le : ∀ o ∈ l.changes.filterMap raised?, o.severity ≤ l.record.outcome.severity
  outcome_mem : l.record.outcome = .ok ∨ l.record.outcome ∈ l.changes.filterMap raised?
  outcome_error : l.record.errorCode.isSome = true → l.record.outcome = .error
  elapsed : l.record.elapsed = elapsedAt l.begun.begun l.changes
  /-- The verdict never falls, and the first end stays. -/
  rises : ∀ earlier later, l.changes = earlier ++ later →
    (state l.begun earlier).outcome.severity ≤ l.record.outcome.severity ∧
      ∀ n, (state l.begun earlier).elapsed = some n → l.record.elapsed = some n
  silent : (∀ c ∈ l.changes, c.isEmit = false) → l.emitted = []

/-- A line and what it shows: the record that was begun with what was done to it before the
output. -/
structure Shows (r : Record) (before : List Change) (masked : Trace.Mask.Registry) (now : Moment)
    (e : Emission) : Prop where
  line : e.line = (described r (before ++ [.finish now])).line masked
  requestBody : (described r (before ++ [.finish now])).requestBody = last requestBody? before
  responseBody : (described r (before ++ [.finish now])).responseBody = last responseBody? before
  /-- Another order of the names gives the same line, unless a value of a body runs on. -/
  anyOrder (other : Trace.Mask.Registry) (hsame : ∀ name, name ∈ other.names ↔ name ∈ masked.names)
    (hnames : ∀ name ∈ masked.names, Trace.Mask.Key name.toList)
    (hends : ∀ body, last requestBody? before = some body ∨ last responseBody? before = some body →
      Trace.Mask.ValuesEnd (masked.names.map String.toList) body.toList) :
    e.line = (described r (before ++ [.finish now])).line other
  outcome : e.outcome = worstRaised before
  action : (described r (before ++ [.finish now])).action = (last action? before).getD r.action
  elapsed : (described r (before ++ [.finish now])).elapsed =
    some ((elapsedAt r.begun before).getD (now.nanos - r.begun.nanos))
  context (key : String) : (described r (before ++ [.finish now])).scope.context.get? key =
    match (before.flatMap writes).filterMap (Trace.Scope.Write.values? key) with
    | [] => r.scope.context.get? key
    | puts => some ((r.scope.context.get? key).getD [] ++ puts.flatten)
  stats (key : String) : (described r (before ++ [.finish now])).scope.stats.get? key =
    (before.flatMap writes).foldl (Trace.Scope.Write.statAfter key) (r.scope.stats.get? key)

theorem Log.keeping (l : Log) : l.Keeping := by
  have hrecord : l.record = described l.begun l.changes := state_eq l.origin l.changes
  refine ⟨?_, by rw [hrecord]; rfl, by rw [hrecord]; rfl, ?_, ?_, ?_, by rw [hrecord]; rfl, ?_,
    fun h => emissions_of_none h _⟩
  · rw [hrecord, described, Record.id, scopeAfter]
    cases sinceEmit? l.changes <;> exact Trace.Scope.id_writeAll _
  · rw [hrecord]
    exact fun o => le_worstRaised
  · rw [hrecord]
    exact worstRaised_mem l.changes
  · rw [hrecord]
    intro h
    exact worstRaised_of_failure (Option.isSome_map.symm.trans h)
  · intro earlier later heq
    rw [hrecord, state_eq l.origin, heq]
    refine ⟨severity_worstRaised_le earlier later, fun n hn => ?_⟩
    change elapsedAt _ _ = _
    rw [elapsedAt_append, show elapsedAt l.begun.begun earlier = some n from hn]
    rfl

theorem line_eq {r : Record} {masked other : Trace.Mask.Registry}
    (hrequest : ∀ body ∈ r.requestBody, other.redact body = masked.redact body)
    (hresponse : ∀ body ∈ r.responseBody, other.redact body = masked.redact body) :
    r.line other = r.line masked := by
  have hmember {key : String} {body : Option String}
      (h : ∀ text ∈ body, other.redact text = masked.redact text) :
      bodyMember other key body = bodyMember masked key body := by
    cases body with
    | none => rfl
    | some text => rw [bodyMember, bodyMember, h text rfl]
  rw [line, line, toJson, toJson, members, members, hmember hrequest, hmember hresponse]

theorem shows_described {r : Record} {before : List Change} (h : ∀ c ∈ before, c.isEmit = false)
    (masked : Trace.Mask.Registry) (now : Moment) :
    Shows r before masked now
      ⟨(described r (before ++ [.finish now])).line masked, worstRaised before⟩ := by
  have hscope : scopeAfter r (before ++ [.finish now]) =
      (r.scope.writeAll (before.flatMap writes)).rename ((last action? before).getD r.action) := by
    rw [scopeAfter_concat r before rfl, scopeAfter, sinceEmit?_eq_none h]
    rfl
  have hbodies : last requestBody? (before ++ [.finish now]) = last requestBody? before ∧
      last responseBody? (before ++ [.finish now]) = last responseBody? before :=
    ⟨last_concat .., last_concat ..⟩
  refine ⟨rfl, hbodies.1, hbodies.2, fun other hsame hnames hends => ?_, rfl, ?_, ?_,
    fun key => ?_, fun key => ?_⟩
  · refine (line_eq (fun body hbody => ?_) fun body hbody => ?_).symm
    · exact Trace.Mask.Registry.redact_eq hsame hnames (hends body (.inl (hbodies.1 ▸ hbody)))
    · exact Trace.Mask.Registry.redact_eq hsame hnames (hends body (.inr (hbodies.2 ▸ hbody)))
  · rw [described, Record.action, hscope]
    rfl
  · rw [described, elapsedAt_concat]
    cases elapsedAt r.begun before <;> rfl
  · rw [described, hscope]
    exact Trace.Scope.context_writeAll _
  · rw [described, hscope]
    exact Trace.Scope.stats_writeAll _

/-! ## Logs and metrics -/

structure Logs where
  logs : List Log
  metrics : Metrics

namespace Logs

def start : Logs := ⟨[], .empty⟩

/-- What an output counts. -/
def counted (emission : Option Emission) (m : Metrics) : Metrics :=
  match emission with
  | none => m
  | some e => m.recordEmitted e.outcome

inductive Step (s : Logs) : Logs → Prop where
  | begins (r : Record) (h : r.Begun) : Step s { s with logs := s.logs ++ [⟨r, h, []⟩] }
  | changes {before after : List Log} {l : Log} (c : Change) (h : s.logs = before ++ l :: after) :
      Step s ⟨before ++ l.change c :: after, counted (c.apply l.record).1 s.metrics⟩
  /-- The gauges of a pool are set. -/
  | loads (pool : String) (load : Work.Load) :
      Step s { s with metrics := s.metrics.recordLoad pool load }
  | closes (stage : Shutdown.Stage) (hooks : Nat) :
      Step s { s with metrics := s.metrics.recordStage stage.index hooks }

inductive Reachable : Logs → Prop where
  | start : Reachable start
  | step {s t : Logs} (H : Reachable s) (h : s.Step t) : Reachable t

variable {s t : Logs}

/-- How many records with a verdict were emitted. -/
def count (o : Outcome) (logs : List Log) : Nat :=
  (logs.flatMap Log.emitted).countP (·.outcome = o)

theorem count_change (o : Outcome) (before after : List Log) (l : Log) (c : Change) :
    count o (before ++ l.change c :: after) = count o (before ++ l :: after) +
      ((c.apply l.record).1.toList.countP (·.outcome = o)) := by
  have hl : (l.change c).emitted = l.emitted ++ (c.apply l.record).1.toList := emissions_concat ..
  simp only [count, List.flatMap_append, List.flatMap_cons, List.countP_append, hl]
  omega

theorem counter_counted (o : Outcome) (emission : Option Emission) (m : Metrics) {n : Nat}
    (h : m.counter (Metrics.emittedKey o) = n % 2 ^ 64) :
    (counted emission m).counter (Metrics.emittedKey o) =
      (n + emission.toList.countP (·.outcome = o)) % 2 ^ 64 := by
  cases emission with
  | none => exact h
  | some e =>
    rw [counted, Metrics.counter_recordEmitted, h, Option.toList_some, List.countP_singleton]
    by_cases ho : e.outcome = o
    · rw [if_pos ho, if_pos (decide_eq_true ho), Nat.mod_add_mod]
    · rw [if_neg ho, if_neg (by simpa using ho), Nat.add_zero]

theorem Reachable.counter_eq (h : Reachable s) (o : Outcome) :
    s.metrics.counter (Metrics.emittedKey o) = count o s.logs % 2 ^ 64 := by
  induction h with
  | start => rfl
  | step H h ih =>
    cases h with
    | begins r hr =>
      rw [ih, count, count, List.flatMap_append]
      exact congrArg (List.countP _ · % _) (List.append_nil _).symm
    | changes c hlogs => rw [counter_counted o _ _ ih, count_change, hlogs]
    | loads pool load => rw [Metrics.counter_recordLoad, ih]
    | closes stage hooks => rw [Metrics.counter_recordStage_emittedKey, ih]

/-- **One line for each log.** Whatever is done to the logs of a run, in any order and number: a log
keeps its identity, its verdict is the most severe one that was raised, and its first end stays. It
gives at most one line, at the first output, which shows what was done before, its bodies masked for
the names in the order of that moment, whichever it is; its scope is empty right after that. The
counter of each verdict tells how many of the emitted records have it. -/
theorem one_line (h : Reachable s) :
    (∀ l ∈ s.logs, l.Keeping ∧
      ∀ before masked now after, l.changes = before ++ .emit masked now :: after →
        (∀ c ∈ before, c.isEmit = false) →
        (∃ e, l.emitted = [e] ∧ Shows l.begun before masked now e) ∧
        (state l.begun (before ++ [.emit masked now])).scope.context = .empty ∧
        (state l.begun (before ++ [.emit masked now])).scope.stats = .empty) ∧
    ∀ o, s.metrics.counter (Metrics.emittedKey o) =
      (s.logs.flatMap Log.emitted).countP (·.outcome = o) % 2 ^ 64 := by
  refine ⟨fun l hl => ⟨l.keeping, ?_⟩, h.counter_eq⟩
  intro before masked now after hchanges hbefore
  refine ⟨⟨_, ?_, shows_described hbefore masked now⟩, ?_⟩
  · rw [Log.emitted, hchanges]
    exact emissions_eq l.origin hbefore masked now after
  · rw [state_eq l.origin, described, scopeAfter, sinceEmit?_concat, sinceEmit?_eq_none hbefore]
    exact ⟨rfl, rfl⟩

/-- A log that is written to and raised again after its output. -/
theorem one_line_writtenAfter : ∃ s : Logs, Reachable s ∧ ∃ l ∈ s.logs,
    (∃ e, l.emitted = [e] ∧ Shows l.begun [.escalate .warn] .empty ⟨0, 7⟩ e) ∧
    l.record.outcome = .error ∧ s.metrics.counter (Metrics.emittedKey .warn) = 1 := by
  have h : Reachable { start with logs := [⟨_, .root .empty "id" ⟨0, 0⟩ "job" "task", []⟩] } :=
    .step .start (.begins _ _)
  have h := h.step (@Step.changes _ [] [] _ (.escalate .warn) rfl)
  have h := h.step (@Step.changes _ [] [] _ (.emit .empty ⟨0, 7⟩) rfl)
  have h := h.step (@Step.changes _ [] [] _ (.write (.setStat "rows" 1.0)) rfl)
  have h := h.step (@Step.changes _ [] [] _ (.fail "BROKEN" "late" "") rfl)
  have h := h.step (@Step.changes _ [] [] _ (.emit .empty ⟨0, 9⟩) rfl)
  obtain ⟨hlogs, hcounter⟩ := one_line h
  obtain ⟨hkeeping, hshows⟩ := hlogs _ (.head _)
  refine ⟨_, h, _, .head _, (hshows [.escalate .warn] .empty ⟨0, 7⟩ _ rfl ?_).1,
    hkeeping.outcome_error rfl, ?_⟩
  · exact fun c hc => List.mem_singleton.mp hc ▸ rfl
  · exact (hcounter .warn).trans rfl

end Logs

end Logbook.Record
