import Logbook.Proofs.Record.Ending
import Logbook.Work.Crew
import Logbook.Work.Unit

/-! An executor as a transition system: a pool, its workers, and the jobs on the way. Workers move
one at a time and each up to its next wait, in any order; who submits, shuts down or waits does so
at any time. Time passes only when nobody who waits is due.

Jobs write values and stats into the scope that they are lent and end; of the edits of a scope
(`Trace.Scope.Edit`) they make no other. A job that panics before it has begun, while it is made
ready, takes its worker with it: that move is `Worn.Step.lose`, and what executors keep of their
promises then is said there. -/

namespace Logbook.Work

/-- A job that was accepted, with its place in the order of acceptance. -/
structure Job where
  number : Nat
  link : Trace.Link
  action : String

/-- A worker with its job, and the record of the job once it has begun. -/
structure Busy where
  worker : Nat
  job : Job
  record : Option Record

structure Finished where
  job : Job
  closed : Closed

structure Executor where
  crew : Crew Job
  /-- Workers without a job that do not stand in line yet. -/
  arriving : List Nat
  busy : List Busy
  accepted : List Job
  started : List Job
  finished : List Finished
  now : Nat
  /-- The deadlines of those who wait for the workers to leave. -/
  waits : List Nat

namespace Executor

def start (name : String) (size : Nat) : Executor where
  crew := ⟨.ofSize name size, []⟩
  arriving := List.range (max size 1)
  busy := []
  accepted := []
  started := []
  finished := []
  now := 0
  waits := []

def pool (s : Executor) : Pool Job := s.crew.pool

def setPool (p : Pool Job) (s : Executor) : Executor := { s with crew := { s.crew with pool := p } }

/-- Hands in a job; a refusal leaves no new state. -/
def submit (link : Trace.Link) (action : String) (s : Executor) : Except Refusal Executor :=
  let job : Job := ⟨s.accepted.length, link, action⟩
  (s.pool.submit job).map fun p => { s.setPool p with accepted := s.accepted ++ [job] }

/-- A worker without a job: it comes to the line, takes a job, or leaves. -/
inductive Serve : Executor → Executor → Prop where
  | join {s : Executor} {before after : List Nat} {worker : Nat}
      (h : s.arriving = before ++ worker :: after) :
      Serve s { s with crew := s.crew.join worker, arriving := before ++ after }
  | take {s : Executor} {worker : Nat} {job : Job} {crew : Crew Job}
      (h : s.crew.turn worker = (.takes job, crew)) :
      Serve s { s with crew := crew, busy := s.busy ++ [⟨worker, job, none⟩],
                       started := s.started ++ [job] }
  | leave {s : Executor} {worker : Nat} {crew : Crew Job}
      (h : s.crew.turn worker = (.leaves, crew)) :
      Serve s { s with crew := crew }

/-- A worker with a job: the job begins its record, or comes to its end. -/
inductive Perform : Executor → Executor → Prop where
  | begin {s : Executor} {before after : List Busy} {worker : Nat} {job : Job} (id : String)
      (o : Occasion) (h : s.busy = before ++ ⟨worker, job, none⟩ :: after) :
      Perform s { s with
        busy := before ++ ⟨worker, job, some (Record.startChild o.masked job.link id o.now
          job.action jobType)⟩ :: after }
  | finish {s : Executor} {before after : List Busy} {worker : Nat} {job : Job} {r : Record}
      (e : Ending) (o : Occasion) (h : s.busy = before ++ ⟨worker, job, some r⟩ :: after) :
      Perform s { s.setPool s.pool.finish with
        arriving := s.arriving ++ [worker]
        busy := before ++ after
        finished := s.finished ++ [⟨job, close o.masked o.trace o.now e r⟩] }

/-- What brings no worker further: writes of a job, and what is done from outside. -/
inductive Other : Executor → Executor → Prop where
  | write {s : Executor} {before after : List Busy} {worker : Nat} {job : Job} {r : Record}
      (w : Trace.Scope.Write) (h : s.busy = before ++ ⟨worker, job, some r⟩ :: after) :
      Other s { s with
        busy := before ++ ⟨worker, job, some { r with scope := w.apply r.scope }⟩ :: after }
  | submit {s t : Executor} (link : Trace.Link) (action : String)
      (h : s.submit link action = .ok t) : Other s t
  | shutDown {s : Executor} : Other s (s.setPool s.pool.close)
  | await {s : Executor} (budget : Nat) : Other s { s with waits := s.waits ++ [s.now + budget] }
  | look {s : Executor} {due : Nat} (answer : Bool) (hdue : due ∈ s.waits)
      (h : s.pool.awaited due s.now = some answer) : Other s { s with waits := s.waits.erase due }
  | pass {s : Executor} (millis : Nat) (h : ∀ due ∈ s.waits, s.now + millis ≤ due) :
      Other s { s with now := s.now + millis }

/-- A move of a worker. -/
def Advance (s t : Executor) : Prop := Serve s t ∨ Perform s t

/-- A run with so many moves of workers. -/
inductive Run : Nat → Executor → Executor → Prop where
  | refl {s : Executor} : Run 0 s s
  | advance {n : Nat} {s t u : Executor} (H : Run n s t) (h : Advance t u) : Run (n + 1) s u
  | other {n : Nat} {s t u : Executor} (H : Run n s t) (h : Other t u) : Run n s u

def Reachable (name : String) (size : Nat) (s : Executor) : Prop := ∃ n, Run n (start name size) s

theorem Run.trans {m n : Nat} {s t u : Executor} (H : Run m s t) (H' : Run n t u) :
    Run (m + n) s u := by
  induction H' with
  | refl => exact H
  | advance _ h ih => exact .advance (ih H) h
  | other _ h ih => exact .other (ih H) h

/-- What each move keeps is kept by runs. -/
theorem Run.keeps {P : Executor → Prop} (hadvance : ∀ {s t}, P s → Advance s t → P t)
    (hother : ∀ {s t}, P s → Other s t → P t) {n : Nat} {s t : Executor} (H : Run n s t)
    (hs : P s) : P t := by
  induction H with
  | refl => exact hs
  | advance _ h ih => exact hadvance (ih hs) h
  | other _ h ih => exact hother (ih hs) h

end Executor

end Logbook.Work
