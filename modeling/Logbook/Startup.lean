/-!
# Startup

Entries are registered for one of three phases. A run of a phase takes the entries registered so far
and runs them one after the other, up to the first that fails; what comes behind it is discarded.
Starting runs two phases, the second only if the first did not fail.
-/

namespace Logbook.Startup

inductive Phase where
  | initialization
  | start
  | secondStart
  deriving DecidableEq, Repr

def Phase.name : Phase → String
  | .initialization => "initialize"
  | .start => "start"
  | .secondStart => "start_stage2"

structure StartError where
  phase : Phase
  index : Nat
  message : String
  deriving DecidableEq, Repr

def StartError.text (e : StartError) : String :=
  "startup " ++ e.phase.name ++ " entry " ++ toString e.index ++ " failed: " ++ e.message

def StartError.fields (e : StartError) : List (String × String) :=
  [("phase", e.phase.name), ("index", toString e.index), ("error", e.message)]

variable {α : Type}

/-- The entries that have not been run, by phase, in the order of their registration. -/
structure Sequencer (α : Type) where
  pending : Phase → List α

namespace Sequencer

def empty : Sequencer α := ⟨fun _ => []⟩

def add (phase : Phase) (entry : α) (s : Sequencer α) : Sequencer α :=
  ⟨fun p => if p = phase then s.pending p ++ [entry] else s.pending p⟩

def take (phase : Phase) (s : Sequencer α) : List α × Sequencer α :=
  (s.pending phase, ⟨fun p => if p = phase then [] else s.pending p⟩)

end Sequencer

/-- A run on the way: the phase, the place of the next entry, the rest of the batch, and the phases
that follow. -/
structure Run (α : Type) where
  phase : Phase
  index : Nat
  batch : List α
  later : List Phase

inductive Next (α : Type) where
  | call (entry : α) (run : Run α)
  | done

/-- Takes the first batch of a list of phases. -/
def begin? (phases : List Phase) (s : Sequencer α) : Option (Run α) × Sequencer α :=
  match phases with
  | [] => (none, s)
  | phase :: later =>
    let (batch, s) := s.take phase
    (some ⟨phase, 0, batch, later⟩, s)

/-- The next entry to run; a phase whose batch is used up gives way to the next one. -/
def Run.next (r : Run α) (s : Sequencer α) : Next α × Sequencer α :=
  match r.batch with
  | entry :: batch => (.call entry { r with index := r.index + 1, batch := batch }, s)
  | [] => phases r.later s
where
  phases : List Phase → Sequencer α → Next α × Sequencer α
    | [], s => (.done, s)
    | phase :: later, s =>
      match s.take phase with
      | (entry :: batch, s) => (.call entry ⟨phase, 1, batch, later⟩, s)
      | ([], s) => phases later s

def Run.error (r : Run α) (message : String) : StartError := ⟨r.phase, r.index - 1, message⟩

def initializing : List Phase := [.initialization]

def starting : List Phase := [.start, .secondStart]

end Logbook.Startup
