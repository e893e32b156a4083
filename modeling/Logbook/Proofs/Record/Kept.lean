import Logbook.Delivery.Memory
import Logbook.Proofs.Record.Contents
import Logbook.Proofs.Record.Logs

/-! Lines that are kept. The logs of a run give their lines to a sink in memory, each when it is
emitted, and the sink keeps the objects that were written (`lines_kept`). -/

namespace Logbook.Record

open Change

/-- A record as it is written, and the names that are masked then. -/
structure Output where
  record : Record
  masked : Trace.Mask.Registry

namespace Output

def line (o : Output) : String := o.record.line o.masked

def object (o : Output) : Json := o.record.toJson o.masked

def contents (o : Output) : Contents := o.record.contents o.masked

def emission (o : Output) : Emission := ⟨o.line, o.record.outcome⟩

end Output

/-- What a change writes. -/
def Change.output? : Change → Record → Option Output
  | emit masked now, r => if r.emitted then none else some ⟨r.finish now, masked⟩
  | _, _ => none

/-- What changes write, in order. -/
def outputs (r : Record) : List Change → List Output
  | [] => []
  | c :: changes => (c.output? r).toList ++ outputs (c.apply r).2 changes

variable {r : Record} {o : Output} {c : Change}

theorem emission_eq (c : Change) (r : Record) :
    (c.apply r).1 = (c.output? r).map Output.emission := by
  cases c with
  | emit masked now =>
    rw [apply, emit, output?]
    split <;> rfl
  | _ => rfl

theorem emissions_eq_outputs (r : Record) (changes : List Change) :
    emissions r changes = (outputs r changes).map Output.emission := by
  induction changes generalizing r with
  | nil => rfl
  | cons c changes ih =>
    rw [emissions, outputs, ih, emission_eq, List.map_append]
    cases c.output? r <;> rfl

theorem outputs_append (r : Record) (changes later : List Change) :
    outputs r (changes ++ later) = outputs r changes ++ outputs (state r changes) later := by
  induction changes generalizing r with
  | nil => rfl
  | cons c changes ih => rw [List.cons_append, outputs, ih, outputs, List.append_assoc]; rfl

/-- An output writes the record of the changes before, ended. -/
theorem output_cases (h : o ∈ c.output? r) :
    ∃ masked now, c = .emit masked now ∧ r.emitted = false ∧ o = ⟨r.finish now, masked⟩ := by
  cases c with
  | emit masked now =>
    rw [output?] at h
    split at h
    · cases h
    · next hemitted =>
      exact ⟨masked, now, rfl, Bool.not_eq_true _ ▸ hemitted, (Option.some.inj h).symm⟩
  | _ => cases h

theorem mem_outputs {changes : List Change} (h : o ∈ outputs r changes) :
    ∃ before masked now after, changes = before ++ .emit masked now :: after ∧
      (state r before).emitted = false ∧ o = ⟨(state r before).finish now, masked⟩ := by
  induction changes generalizing r with
  | nil => cases h
  | cons c changes ih =>
    rw [outputs, List.mem_append, Option.mem_toList] at h
    rcases h with h | h
    · obtain ⟨masked, now, rfl, hemitted, rfl⟩ := output_cases h
      exact ⟨[], masked, now, changes, rfl, hemitted, rfl⟩
    · obtain ⟨before, masked, now, after, rfl, hemitted, rfl⟩ := ih h
      exact ⟨c :: before, masked, now, after, rfl, hemitted, rfl⟩

/-! ## Outputs of a log -/

def Log.outputs (l : Log) : List Output := Record.outputs l.begun l.changes

theorem Log.outputs_change (l : Log) (c : Change) :
    (l.change c).outputs = l.outputs ++ (c.output? l.record).toList := by
  rw [outputs, change, outputs_append, Record.outputs, Record.outputs, List.append_nil]
  rfl

/-- An output of a log: what it held before its first output, ended then. -/
def Output.Of (o : Output) (l : Log) : Prop :=
  ∃ before masked now after, l.changes = before ++ .emit masked now :: after ∧
    (∀ c ∈ before, c.isEmit = false) ∧ o = ⟨(state l.begun before).finish now, masked⟩

theorem isEmit_of_sinceEmit? {changes : List Change} (h : sinceEmit? changes = none) :
    ∀ c ∈ changes, c.isEmit = false := by
  induction changes with
  | nil => nofun
  | cons c changes ih =>
    rw [sinceEmit?] at h
    split at h
    · cases h
    · next hemit =>
      intro d hd
      rcases List.mem_cons.mp hd with rfl | hd
      · exact Bool.not_eq_true _ ▸ hemit
      · exact ih h d hd

theorem of_mem_outputs {l : Log} (h : o ∈ l.outputs) : o.Of l := by
  obtain ⟨before, masked, now, after, hchanges, hemitted, ho⟩ := mem_outputs h
  refine ⟨before, masked, now, after, hchanges, isEmit_of_sinceEmit? ?_, ho⟩
  rw [state_eq l.origin] at hemitted
  exact Option.isNone_iff_eq_none.mp (Option.isSome_eq_false_iff.mp hemitted)

/-! ## Lines -/

/-- What the line of an output tells. -/
structure Output.Told (o : Output) : Prop where
  /-- The line is the text of one object, and of no other value. -/
  object : o.line = o.object.text ∧ ∀ v : Json, v.Finite → v.text = o.line → v = o.object
  names : ∃ members, o.object = .object members ∧ (members.map (·.1)).Nodup
  printable : ∀ c ∈ o.line.toList, Json.Printable c
  contents : Contents.ofJson? o.object = some o.contents
  elapsed : o.record.elapsed = some o.contents.elapsed
  /-- What has the same line has the same contents. -/
  same (other : Output) : other.line = o.line → other.contents = o.contents

theorem Output.Of.told {l : Log} (h : o.Of l) : o.Told where
  object := ⟨rfl, fun _ hv htext => Json.text_inj hv (finite_toJson _ _) htext⟩
  names := ⟨_, rfl, nodup_names _ _⟩
  printable := printable_line _ _
  contents := ofJson?_toJson _ _
  elapsed := by
    obtain ⟨before, masked, now, -, -, -, rfl⟩ := h
    rw [Output.contents, Record.contents, finish_eq]
    cases (state l.begun before).elapsed <;> rfl
  same _ h := contents_eq_of_line h

/-! ## The sink -/

/-- The logs of a run and a sink in memory. -/
structure Keeper where
  logs : List Log
  sink : Delivery.Memory
  /-- What the sink has reported. -/
  reports : List Diagnostic
  /-- What was written so far, in order. -/
  written : List Output

namespace Keeper

def start : Keeper := ⟨[], .empty, [], []⟩

/-- The sink is given a line, if there is one. -/
def deliver (emission : Option Emission) (sink : Delivery.Memory) :
    Delivery.Memory × List Diagnostic :=
  match emission with
  | none => (sink, [])
  | some e => sink.add e.line

inductive Step (s : Keeper) : Keeper → Prop where
  | begins (r : Record) (h : r.Begun) : Step s { s with logs := s.logs ++ [⟨r, h, []⟩] }
  | changes {before after : List Log} {l : Log} (c : Change) (h : s.logs = before ++ l :: after) :
      Step s {
        logs := before ++ l.change c :: after
        sink := (deliver (c.apply l.record).1 s.sink).1
        reports := s.reports ++ (deliver (c.apply l.record).1 s.sink).2
        written := s.written ++ (c.output? l.record).toList }

inductive Reachable : Keeper → Prop where
  | start : Reachable start
  | step {s t : Keeper} (H : Reachable s) (h : s.Step t) : Reachable t

variable {s t : Keeper}

/-- What was written are the outputs of the logs. -/
theorem Step.written_perm (h : s.Step t) (hperm : s.written.Perm (s.logs.flatMap Log.outputs)) :
    t.written.Perm (t.logs.flatMap Log.outputs) := by
  cases h with
  | begins r hr =>
    rw [List.flatMap_append, List.flatMap_singleton]
    exact (List.append_nil _).symm ▸ hperm
  | @changes before after l c hlogs =>
    rw [hlogs, List.flatMap_append, List.flatMap_cons] at hperm
    rw [List.flatMap_append, List.flatMap_cons, Log.outputs_change]
    refine (hperm.append_right _).trans ?_
    simp only [List.append_assoc]
    exact (List.perm_append_comm.append_left _).append_left _

theorem Reachable.written_perm (h : s.Reachable) : s.written.Perm (s.logs.flatMap Log.outputs) := by
  induction h with
  | start => exact .nil
  | step _ h ih => exact h.written_perm ih

/-- A line that can be read is kept as the object that was written. -/
theorem deliver_output {o : Output} (h : o.record.Legible) (sink : Delivery.Memory) :
    deliver (some o.emission) sink = (⟨sink.records ++ [o.object]⟩, []) := by
  rw [deliver, Delivery.Memory.add, Output.emission, Output.line, h.read_line]
  rfl

/-- The sink holds the objects that were written, and has nothing to report. -/
def Keeps (s : Keeper) : Prop := s.sink.records = s.written.map Output.object ∧ s.reports = []

theorem Step.keeps (h : s.Step t) (hkeeps : s.Keeps)
    (hlegible : ∀ o ∈ t.written, o.record.Legible) :
    t.Keeps := by
  cases h with
  | begins => exact hkeeps
  | @changes before after l c hlogs =>
    rw [Keeps, emission_eq]
    dsimp only at hlegible ⊢
    cases houtput : c.output? l.record with
    | none =>
      rw [Option.toList_none, List.append_nil]
      exact ⟨hkeeps.1, (List.append_nil _).trans hkeeps.2⟩
    | some o =>
      have ho : o.record.Legible := hlegible o (by rw [houtput]; simp)
      rw [Option.map_some, deliver_output ho, List.map_append, hkeeps.1, hkeeps.2]
      exact ⟨rfl, rfl⟩

theorem Step.written_prefix (h : s.Step t) : s.written <+: t.written := by
  cases h with
  | begins => exact List.prefix_refl _
  | changes => exact List.prefix_append _ _

theorem Reachable.keeps (h : s.Reachable) (hlegible : ∀ o ∈ s.written, o.record.Legible) :
    s.Keeps := by
  induction h with
  | start => exact ⟨rfl, rfl⟩
  | step _ h ih =>
    have hearlier := h.written_prefix.subset
    exact h.keeps (ih fun o ho => hlegible o (hearlier ho)) hlegible

/-- **Lines lose nothing and cannot be forged.** Whatever is done to the logs of a run, each line
that is written is that of a log as it was when it was emitted: one object, with different names and
without control characters, that tells the contents of the log, so that two logs with the same line
have the same contents. A sink in memory keeps just these objects, in the order of the lines,
provided that the texts of their stats are read as the stats and their durations fit 64 bits. -/
theorem lines_kept (h : s.Reachable) :
    s.written.Perm (s.logs.flatMap Log.outputs) ∧
    (∀ l ∈ s.logs, l.emitted = l.outputs.map Output.emission) ∧
    (∀ l ∈ s.logs, ∀ o ∈ l.outputs, o.Of l ∧ o.Told) ∧
    ((∀ o ∈ s.written, o.record.Legible) →
      s.sink.records = s.written.map Output.object ∧ s.reports = []) :=
  ⟨h.written_perm, fun l _ => emissions_eq_outputs l.begun l.changes,
    fun _ _ _ ho => ⟨of_mem_outputs ho, (of_mem_outputs ho).told⟩, h.keeps⟩

/-- A log with keys that look like other members. -/
theorem lines_kept_likeMembers : ∃ s : Keeper, s.Reachable ∧
    s.sink.records = s.written.map Output.object ∧ s.reports = [] ∧
    s.written.map Output.line = ["\x7b\"id\":\"7\",\"date\":\"1970-01-01T00:00:00.000Z\"," ++
      "\"action\":\"job\",\"action_type\":\"task\",\"result\":\"ok\",\"elapsed\":5," ++
      "\"context.\":[\"\\\"\x7d\\n\",\"\\\\\"],\"context.action_type\":\"task\"," ++
      "\"context.id\":\"8\",\"stat.id\":null,\"stat.x\":12.0\x7d"] := by
  have h : Reachable { start with logs := [⟨_, .root .empty "7" ⟨0, 0⟩ "job" "task", []⟩] } :=
    .step .start (.begins _ _)
  have h := h.step (@Step.changes _ [] [] _ (.write (.put .empty "id" ["8"])) rfl)
  have h := h.step (@Step.changes _ [] [] _ (.write (.put .empty "" ["\"\x7d\n", "\\"])) rfl)
  have h := h.step (@Step.changes _ [] [] _ (.write (.setStat "x" 12.0)) rfl)
  have h := h.step (@Step.changes _ [] [] _ (.write (.setStat "id" (0.0 / 0.0))) rfl)
  have h := h.step (@Step.changes _ [] [] _ (.client "") rfl)
  have h := h.step (@Step.changes _ [] [] _ (.emit .empty ⟨0, 5⟩) rfl)
  obtain ⟨-, -, -, hkept⟩ := lines_kept h
  have hkept := hkept (by decide +kernel)
  exact ⟨_, h, hkept.1, hkept.2, by decide +kernel⟩

end Keeper

end Logbook.Record
