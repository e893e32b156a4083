import Mathlib.Data.List.Induction
import Logbook.Proofs.Counters
import Logbook.Proofs.Trace.Writes

/-! The life of a record. Once it was begun, anything may be done to it in any order and number,
also after its end and after it was emitted. What it holds is a function of the changes so far
(`state_eq`), and its line one of those before the first output. -/

namespace Logbook.Record

/-- A record that was begun, by itself or by the unit with a link. -/
inductive Begun : Record → Prop where
  | root (masked : Trace.Mask.Registry) (id : String) (now : Moment) (action actionType : String) :
      Begun (start masked id now action actionType)
  | child (masked : Trace.Mask.Registry) (parent : Trace.Link) (id : String) (now : Moment)
      (action actionType : String) : Begun (startChild masked parent id now action actionType)

/-- What may be done to a record. Each change finds the clocks and the masked names of its moment,
the names in whatever order they are gone through then. -/
inductive Change where
  | rename (action : String)
  | client (text : String)
  | requestBody (text : String)
  | responseBody (text : String)
  | write (w : Trace.Scope.Write)
  | escalate (outcome : Outcome)
  | fail (code message trace : String)
  | fault (masked : Trace.Mask.Registry) (failure : Failure) (trace : String)
  | finish (now : Moment)
  | finishWith (outcome : Outcome) (now : Moment)
  | emit (masked : Trace.Mask.Registry) (now : Moment)

namespace Change

def apply : Change → Record → Option Emission × Record
  | rename action, r => (none, r.rename action)
  | client text, r => (none, { r with client := some text })
  | requestBody text, r => (none, { r with requestBody := some text })
  | responseBody text, r => (none, { r with responseBody := some text })
  | write w, r => (none, { r with scope := w.apply r.scope })
  | escalate outcome, r => (none, r.escalate outcome)
  | fail code message trace, r => (none, r.fail code message trace)
  | fault masked failure trace, r => (none, r.fault masked failure trace)
  | finish now, r => (none, r.finish now)
  | finishWith outcome now, r => (none, r.finishWith outcome now)
  | emit masked now, r => r.emit masked now

/-! ## What a change is about -/

def action? : Change → Option String
  | rename action => some action
  | _ => none

def client? : Change → Option String
  | client text => some text
  | _ => none

def requestBody? : Change → Option String
  | requestBody text => some text
  | _ => none

def responseBody? : Change → Option String
  | responseBody text => some text
  | _ => none

/-- The code, the message and the trace of a failure. -/
def failure? : Change → Option (String × String × String)
  | fail code message trace => some (code, message, trace)
  | fault _ failure trace => some (failure.code, failure.message, trace)
  | _ => none

/-- The verdict that a change raises. -/
def raised? : Change → Option Outcome
  | escalate outcome | finishWith outcome _ => some outcome
  | fail .. | fault .. => some .error
  | _ => none

/-- The moment of an end; an output is one too. -/
def end? : Change → Option Moment
  | finish now | finishWith _ now | emit _ now => some now
  | _ => none

/-- What a change writes into the scope. A failure is written with its status, and its place if that
is known. -/
def writes : Change → List Trace.Scope.Write
  | write w => [w]
  | fault masked failure _ => .put masked "status" [toString failure.status] ::
      (failure.location?.map fun location => .put masked "location" [location]).toList
  | _ => []

def isEmit : Change → Bool
  | emit .. => true
  | _ => false

end Change

open Change

variable {α : Type} {r : Record} {changes : List Change} {c : Change}

/-- The last change that tells something. -/
def last (f : Change → Option α) (changes : List Change) : Option α :=
  (changes.filterMap f).getLast?

theorem last_concat (f : Change → Option α) (changes : List Change) (c : Change) :
    last f (changes ++ [c]) = (f c).or (last f changes) := by
  rw [last, List.filterMap_append, List.getLast?_append, last]
  cases hc : f c with
  | none => rw [List.filterMap_cons_none hc]; rfl
  | some a => rw [List.filterMap_cons_some hc]; rfl

/-- The changes after the first output. -/
def sinceEmit? : List Change → Option (List Change)
  | [] => none
  | c :: changes => if c.isEmit then some changes else sinceEmit? changes

theorem sinceEmit?_concat (changes : List Change) (c : Change) : sinceEmit? (changes ++ [c]) =
    match sinceEmit? changes with
    | some later => some (later ++ [c])
    | none => if c.isEmit then some [] else none := by
  induction changes with
  | nil => rfl
  | cons d changes ih =>
    rw [List.cons_append, sinceEmit?, sinceEmit?]
    split
    · rfl
    · exact ih

/-- The most severe verdict that was raised. -/
def worstRaised (changes : List Change) : Outcome :=
  (changes.filterMap raised?).foldl .worst .ok

theorem worstRaised_concat (changes : List Change) (c : Change) :
    worstRaised (changes ++ [c]) =
      c.raised?.elim (worstRaised changes) (worstRaised changes).worst := by
  rw [worstRaised, List.filterMap_append, List.foldl_append]
  cases hc : c.raised? with
  | none => rw [List.filterMap_cons_none hc]; rfl
  | some outcome => rw [List.filterMap_cons_some hc]; rfl

theorem severity_worstRaised_le (changes later : List Change) :
    (worstRaised changes).severity ≤ (worstRaised (changes ++ later)).severity := by
  induction later using List.reverseRecOn with
  | nil => exact Nat.le_of_eq (by rw [List.append_nil])
  | append_singleton later c ih =>
    refine Nat.le_trans ih ?_
    rw [← List.append_assoc, worstRaised_concat]
    cases c.raised? with
    | none => exact Nat.le_refl _
    | some outcome =>
      rw [Option.elim, Outcome.severity_worst]
      exact Nat.le_max_left ..

/-- Nothing worse was raised. -/
theorem le_worstRaised {outcome : Outcome} (h : outcome ∈ changes.filterMap raised?) :
    outcome.severity ≤ (worstRaised changes).severity := by
  obtain ⟨c, hc, hraised⟩ := List.mem_filterMap.mp h
  obtain ⟨before, after, rfl⟩ := List.append_of_mem hc
  rw [← List.singleton_append, ← List.append_assoc]
  refine Nat.le_trans ?_ (severity_worstRaised_le _ after)
  rw [worstRaised_concat, hraised, Option.elim, Outcome.severity_worst]
  exact Nat.le_max_right ..

/-- The verdict was raised, or is the one at the beginning. -/
theorem worstRaised_mem (changes : List Change) :
    worstRaised changes = .ok ∨ worstRaised changes ∈ changes.filterMap raised? := by
  induction changes using List.reverseRecOn with
  | nil => exact .inl rfl
  | append_singleton changes c ih =>
    rw [worstRaised_concat, List.filterMap_append]
    cases hc : c.raised? with
    | none => exact ih.imp_right (List.mem_append_left _)
    | some outcome =>
      rw [Option.elim, Outcome.worst]
      split
      · exact .inr (List.mem_append_right _ (List.mem_filterMap.mpr ⟨c, .head _, hc⟩))
      · exact ih.imp_right (List.mem_append_left _)

/-- A failure is an error. -/
theorem worstRaised_of_failure (h : (last failure? changes).isSome = true) :
    worstRaised changes = .error := by
  obtain ⟨failure, hlast⟩ := Option.isSome_iff_exists.mp h
  obtain ⟨c, hc, hfailure⟩ := List.mem_filterMap.mp (List.mem_of_getLast? hlast)
  have hraised : c.raised? = some .error := by cases c <;> first | rfl | cases hfailure
  have hle := le_worstRaised (List.mem_filterMap.mpr ⟨c, hc, hraised⟩)
  cases hworst : worstRaised changes with
  | error => rfl
  | ok | warn => rw [hworst] at hle; exact absurd hle (by decide)

/-- The time from the beginning to the first end. -/
def elapsedAt (begun : Moment) (changes : List Change) : Option Nat :=
  (changes.findSome? end?).map fun now => now.nanos - begun.nanos

theorem elapsedAt_append (begun : Moment) (changes later : List Change) :
    elapsedAt begun (changes ++ later) = (elapsedAt begun changes).or (elapsedAt begun later) := by
  rw [elapsedAt, List.findSome?_append, Option.map_or, elapsedAt, elapsedAt]

theorem elapsedAt_concat (begun : Moment) (changes : List Change) (c : Change) :
    elapsedAt begun (changes ++ [c]) =
      (elapsedAt begun changes).or (c.end?.map fun now => now.nanos - begun.nanos) := by
  rw [elapsedAt_append, elapsedAt, elapsedAt, List.findSome?_singleton]

/-- What a change other than an output makes of a record. -/
def changedBy (c : Change) (r : Record) : Record :=
  { r with
    scope := (r.scope.writeAll c.writes).rename (c.action?.getD r.scope.action)
    client := c.client?.or r.client
    requestBody := c.requestBody?.or r.requestBody
    responseBody := c.responseBody?.or r.responseBody
    errorCode := (c.failure?.map (·.1)).or r.errorCode
    errorMessage := (c.failure?.map (·.2.1)).or r.errorMessage
    stackTrace := (c.failure?.map (·.2.2)).or r.stackTrace
    outcome := c.raised?.elim r.outcome r.outcome.worst
    elapsed := r.elapsed.or (c.end?.map fun now => now.nanos - r.begun.nanos) }

theorem finish_eq (now : Moment) (r : Record) :
    r.finish now = { r with elapsed := r.elapsed.or (some (now.nanos - r.begun.nanos)) } := by
  obtain ⟨_, _, _, _, _, _, _, _, _, _, _, elapsed, _⟩ := r
  cases elapsed <;> rfl

theorem apply_eq (h : c.isEmit = false) (r : Record) : c.apply r = (none, r.changedBy c) := by
  have hfinish := fun now => finish_eq now r
  obtain ⟨begun, actionType, scope, refId, client, requestBody, responseBody, errorCode,
    errorMessage, stackTrace, outcome, elapsed, emitted⟩ := r
  have helapsed : elapsed.or none = elapsed := Option.or_none
  cases c with
  | emit => cases h
  | rename | client | requestBody | responseBody | escalate | fail =>
    simp only [changedBy, end?, Option.map_none, helapsed]
    rfl
  | write w =>
    simp only [changedBy, end?, Option.map_none, helapsed]
    cases w <;> rfl
  | fault masked failure trace =>
    simp only [changedBy, end?, Option.map_none, helapsed]
    cases failure <;> rfl
  | finish now => rw [apply, hfinish]; rfl
  | finishWith outcome now => rw [apply, finishWith, finish_eq]; rfl

/-- The scope of a record after changes: what was written into it since the beginning, or since it
was released by the first output. -/
def scopeAfter (r : Record) (changes : List Change) : Trace.Scope :=
  (match sinceEmit? changes with
    | none => r.scope.writeAll (changes.flatMap writes)
    | some later => r.scope.release.writeAll (later.flatMap writes)).rename
      ((last action? changes).getD r.action)

/-- The record that changes make of one that was begun. -/
def described (r : Record) (changes : List Change) : Record where
  begun := r.begun
  actionType := r.actionType
  scope := scopeAfter r changes
  refId := r.refId
  client := last client? changes
  requestBody := last requestBody? changes
  responseBody := last responseBody? changes
  errorCode := (last failure? changes).map (·.1)
  errorMessage := (last failure? changes).map (·.2.1)
  stackTrace := (last failure? changes).map (·.2.2)
  outcome := worstRaised changes
  elapsed := elapsedAt r.begun changes
  emitted := (sinceEmit? changes).isSome

theorem described_nil (h : r.Begun) : described r [] = r := by
  cases h <;> rfl

theorem scopeAfter_concat (r : Record) (changes : List Change) (h : c.isEmit = false) :
    scopeAfter r (changes ++ [c]) = ((scopeAfter r changes).writeAll c.writes).rename
      (c.action?.getD (scopeAfter r changes).action) := by
  have haction : (last action? (changes ++ [c])).getD r.action =
      c.action?.getD ((last action? changes).getD r.action) := by
    rw [last_concat]
    cases c.action? <;> rfl
  rw [scopeAfter, scopeAfter, sinceEmit?_concat, haction, h, Trace.Scope.writeAll_rename]
  cases sinceEmit? changes <;> dsimp only <;>
    rw [List.flatMap_append, List.flatMap_singleton, Trace.Scope.writeAll_append] <;> rfl

theorem described_concat (r : Record) (changes : List Change) (h : c.isEmit = false) :
    described r (changes ++ [c]) = (described r changes).changedBy c := by
  have hemitted : (sinceEmit? (changes ++ [c])).isSome = (sinceEmit? changes).isSome := by
    rw [sinceEmit?_concat, h]
    cases sinceEmit? changes <;> rfl
  simp only [described, changedBy, scopeAfter_concat r changes h, last_concat, Option.map_or,
    worstRaised_concat, elapsedAt_concat, hemitted]

/-! ## Outputs -/

/-- An output is an end. -/
theorem isSome_elapsedAt (begun : Moment) (h : (sinceEmit? changes).isSome = true) :
    (elapsedAt begun changes).isSome = true := by
  induction changes with
  | nil => cases h
  | cons c changes ih =>
    rw [elapsedAt, List.findSome?_cons]
    cases hend : c.end? with
    | some now => rfl
    | none =>
      refine ih ?_
      cases c with
      | emit => cases hend
      | _ => exact h

/-- A record that has been emitted gives nothing more. -/
theorem described_emit_of_isSome (h : (sinceEmit? changes).isSome = true) (r : Record)
    (masked : Trace.Mask.Registry) (now : Moment) :
    described r (changes ++ [.emit masked now]) = described r changes := by
  obtain ⟨later, hlater⟩ := Option.isSome_iff_exists.mp h
  obtain ⟨elapsed, helapsed⟩ := Option.isSome_iff_exists.mp (isSome_elapsedAt r.begun h)
  have hscope : scopeAfter r (changes ++ [.emit masked now]) = scopeAfter r changes := by
    simp only [scopeAfter, sinceEmit?_concat, hlater, last_concat, action?, List.flatMap_append,
      List.flatMap_singleton, writes, List.append_nil]
    rfl
  simp only [described, hscope, last_concat, worstRaised_concat, elapsedAt_concat,
    sinceEmit?_concat, hlater, helapsed]
  rfl

theorem apply_emit_of_none (h : sinceEmit? changes = none) (r : Record)
    (masked : Trace.Mask.Registry) (now : Moment) :
    (described r changes).emit masked now =
      (some ⟨(described r (changes ++ [.finish now])).line masked, worstRaised changes⟩,
        described r (changes ++ [.emit masked now])) := by
  have hfinish : (described r changes).finish now = described r (changes ++ [.finish now]) := by
    rw [described_concat r changes rfl]
    exact congrArg Prod.snd (apply_eq (c := .finish now) rfl (described r changes))
  have hemitted : (described r changes).emitted = false := congrArg Option.isSome h
  rw [emit, hemitted, if_neg Bool.false_ne_true, hfinish]
  have hworst : worstRaised (changes ++ [.finish now]) = worstRaised changes :=
    worstRaised_concat ..
  have hscope : (scopeAfter r (changes ++ [.finish now])).release =
      scopeAfter r (changes ++ [.emit masked now]) := by
    simp only [scopeAfter, sinceEmit?_concat, h, isEmit, Bool.false_eq_true, if_false, if_true,
      last_concat, action?, Option.none_or]
    exact congrArg (Trace.Scope.named · _) (Trace.Scope.id_writeAll _)
  refine Prod.ext (congrArg some (congrArg (Emission.mk _) hworst)) ?_
  simp only [described, hscope, last_concat, worstRaised_concat, elapsedAt_concat,
    sinceEmit?_concat, h]
  rfl

/-! ## Histories -/

/-- The record after changes. -/
def state (r : Record) (changes : List Change) : Record :=
  changes.foldl (fun r c => (c.apply r).2) r

theorem state_concat (r : Record) (changes : List Change) (c : Change) :
    state r (changes ++ [c]) = (c.apply (state r changes)).2 :=
  List.foldl_append

/-- The lines that changes bring forth, in order. -/
def emissions (r : Record) : List Change → List Emission
  | [] => []
  | c :: changes => (c.apply r).1.toList ++ emissions (c.apply r).2 changes

theorem emissions_append (r : Record) (changes later : List Change) :
    emissions r (changes ++ later) = emissions r changes ++ emissions (state r changes) later := by
  induction changes generalizing r with
  | nil => rfl
  | cons c changes ih => rw [List.cons_append, emissions, ih, emissions, List.append_assoc]; rfl

theorem emissions_concat (r : Record) (changes : List Change) (c : Change) :
    emissions r (changes ++ [c]) = emissions r changes ++ (c.apply (state r changes)).1.toList := by
  rw [emissions_append, emissions, emissions, List.append_nil]

/-- **What a record holds.** After any changes, also beyond its output, a record is the one that
they describe. -/
theorem state_eq (h : r.Begun) (changes : List Change) : state r changes = described r changes := by
  induction changes using List.reverseRecOn with
  | nil => exact (described_nil h).symm
  | append_singleton changes c ih =>
    rw [state_concat, ih]
    cases hemit : c.isEmit with
    | false => rw [apply_eq hemit, described_concat r changes hemit]
    | true =>
      cases c with
      | emit masked now =>
        cases hsince : sinceEmit? changes with
        | none => exact congrArg Prod.snd (apply_emit_of_none hsince r masked now)
        | some later =>
          have hsome : (sinceEmit? changes).isSome = true := hsince ▸ rfl
          rw [described_emit_of_isSome hsome]
          exact congrArg Prod.snd (if_pos hsome)
      | _ => cases hemit

theorem emissions_of_emitted (h : r.emitted = true) (changes : List Change) :
    emissions r changes = [] := by
  induction changes generalizing r with
  | nil => rfl
  | cons c changes ih =>
    have hc : (c.apply r).1 = none ∧ (c.apply r).2.emitted = true := by
      cases hemit : c.isEmit with
      | false => rw [apply_eq hemit]; exact ⟨rfl, h⟩
      | true =>
        cases c with
        | emit masked now => rw [apply, emit, if_pos h]; exact ⟨rfl, h⟩
        | _ => cases hemit
    rw [emissions, hc.1, ih hc.2]
    rfl

theorem sinceEmit?_eq_none (h : ∀ c ∈ changes, c.isEmit = false) : sinceEmit? changes = none := by
  induction changes with
  | nil => rfl
  | cons c changes ih =>
    rw [sinceEmit?, h c (.head _), if_neg Bool.false_ne_true]
    exact ih fun c hc => h c (.tail _ hc)

theorem emissions_of_none (h : ∀ c ∈ changes, c.isEmit = false) (r : Record) :
    emissions r changes = [] := by
  induction changes generalizing r with
  | nil => rfl
  | cons c changes ih =>
    rw [emissions, apply_eq (h c (.head _)), ih fun c hc => h c (.tail _ hc)]
    rfl

/-- The first output gives the line of what was done before, and it is the only line. -/
theorem emissions_eq (hr : r.Begun) (h : ∀ c ∈ changes, c.isEmit = false)
    (masked : Trace.Mask.Registry) (now : Moment) (later : List Change) :
    emissions r (changes ++ .emit masked now :: later) =
      [⟨(described r (changes ++ [.finish now])).line masked, worstRaised changes⟩] := by
  have houtput := apply_emit_of_none (sinceEmit?_eq_none h) r masked now
  have hemitted : (described r (changes ++ [.emit masked now])).emitted = true := by
    rw [described, sinceEmit?_concat, sinceEmit?_eq_none h]
    rfl
  rw [emissions_append, emissions_of_none h, state_eq hr, emissions, apply, houtput,
    emissions_of_emitted hemitted]
  rfl

end Logbook.Record
