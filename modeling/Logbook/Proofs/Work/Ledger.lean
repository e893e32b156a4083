import Logbook.Proofs.Lists
import Logbook.Proofs.Work.Unit

/-! What every reachable state of an executor keeps. The books agree: what was accepted is in the
queue, with a worker, or finished (`Ledger`). Every worker is somewhere, and none leaves too early
(`Staffed`). Every job that runs writes a record of its own, and every one that has finished has
emitted it (`Recorded`). The books have an entry for jobs that were lost together with their
workers; it is empty as long as every job comes to its end. -/

namespace Logbook.Work

variable {α : Type}

/-! ## Turns of workers in line -/

/-- A worker that is not the first in line stays; the first takes a job, or leaves a closed pool
without jobs, or waits for a job. -/
theorem Crew.turn_cases (c : Crew α) (worker : Nat) :
    c.turn worker = (.stays, c) ∨
    (∃ job line queue, c.line = worker :: line ∧ c.pool.queue = job :: queue ∧
      c.turn worker = (.takes job, ⟨{ c.pool with
        queue := queue, waiting := c.pool.waiting - 1, running := c.pool.running + 1 }, line⟩)) ∨
    ∃ line, c.line = worker :: line ∧ c.pool.queue = [] ∧ c.pool.closed = true ∧
      c.turn worker = (.leaves, ⟨c.pool.leave, line⟩) := by
  by_cases hfirst : c.line.head? = some worker
  · obtain ⟨line, hline⟩ := List.head?_eq_some_iff.1 hfirst
    cases hqueue : c.pool.queue with
    | cons job queue =>
      exact .inr (.inl ⟨job, line, queue, hline, rfl, by simp [turn, hline, Pool.take?, hqueue]⟩)
    | nil =>
      by_cases hclosed : c.pool.closed = true
      · exact .inr (.inr ⟨line, hline, rfl, hclosed, by
          simp [turn, hline, Pool.take?, hqueue, Pool.mayLeave, hclosed]⟩)
      · exact .inl (by simp [turn, hline, Pool.take?, hqueue, Pool.mayLeave, hclosed])
  · exact .inl (by simp [turn, hfirst])

theorem Crew.turn_takes {c c' : Crew α} {worker : Nat} {job : α}
    (h : c.turn worker = (.takes job, c')) :
    ∃ line queue, c.line = worker :: line ∧ c.pool.queue = job :: queue ∧
      c' = ⟨{ c.pool with queue := queue, waiting := c.pool.waiting - 1,
                          running := c.pool.running + 1 }, line⟩ := by
  rcases c.turn_cases worker with h' | ⟨job, line, queue, hline, hqueue, h'⟩ | ⟨line, -, -, -, h'⟩
  · cases h'.symm.trans h
  · cases h'.symm.trans h
    exact ⟨line, queue, hline, hqueue, rfl⟩
  · cases h'.symm.trans h

theorem Crew.turn_leaves {c c' : Crew α} {worker : Nat} (h : c.turn worker = (.leaves, c')) :
    ∃ line, c.line = worker :: line ∧ c.pool.queue = [] ∧ c.pool.closed = true ∧
      c' = ⟨c.pool.leave, line⟩ := by
  rcases c.turn_cases worker with h' | ⟨job, line, queue, -, -, h'⟩ | ⟨line, hline, hqueue, hc, h'⟩
  · cases h'.symm.trans h
  · cases h'.symm.trans h
  · cases h'.symm.trans h
    exact ⟨line, hline, hqueue, hc, rfl⟩

/-- The first in line takes the job in front. -/
theorem Crew.turn_of_queue {c : Crew α} {worker : Nat} {line : List Nat} {job : α}
    {queue : List α} (hline : c.line = worker :: line) (hqueue : c.pool.queue = job :: queue) :
    ∃ c', c.turn worker = (.takes job, c') := by
  simp [turn, hline, Pool.take?, hqueue]

/-- The first in line leaves a closed pool without jobs. -/
theorem Crew.turn_of_closed {c : Crew α} {worker : Nat} {line : List Nat}
    (hline : c.line = worker :: line) (hqueue : c.pool.queue = []) (hclosed : c.pool.closed) :
    ∃ c', c.turn worker = (.leaves, c') := by
  simp [turn, hline, Pool.take?, hqueue, Pool.mayLeave, hclosed]

/-! ## The record of a job -/

/-- A record that was not emitted yet, of type executor, with the action and the link of the job. -/
structure Job.Owns (job : Job) (r : Record) : Prop where
  emitted : r.emitted = false
  actionType : r.actionType = jobType
  action : r.action = Record.childAction job.link job.action
  refId : r.refId = if job.link.hasRoot then some job.link.id else none

/-- The job has emitted one record of its own, and will emit no other. -/
def Finished.Told (f : Finished) : Prop :=
  ∃ masked last, f.job.Owns last ∧ f.closed.emission = some ⟨last.line masked, last.outcome⟩ ∧
    f.closed.record.emitted = true

theorem owns_startChild (job : Job) (masked : Trace.Mask.Registry) (id : String) (now : Moment) :
    job.Owns (Record.startChild masked job.link id now job.action jobType) :=
  ⟨rfl, rfl, rfl, rfl⟩

theorem Job.Owns.write {job : Job} {r : Record} (H : job.Owns r) (w : Trace.Scope.Write) :
    job.Owns { r with scope := w.apply r.scope } where
  emitted := H.emitted
  actionType := H.actionType
  action := (Trace.Scope.action_writeAll [w]).trans H.action
  refId := H.refId

theorem told_close {job : Job} {r : Record} (e : Ending) (o : Occasion) (H : job.Owns r) :
    Finished.Told ⟨job, close o.masked o.trace o.now e r⟩ := by
  have keeps : r.Keeps (e.ended o.masked o.trace o.now r) := keeps_ended
  have owns : job.Owns (e.ended o.masked o.trace o.now r) :=
    ⟨emitted_ended.trans H.emitted, keeps.actionType.trans H.actionType,
      keeps.action.trans H.action, keeps.refId.trans H.refId⟩
  refine ⟨o.masked, _, owns, ?_, ?_⟩
  · rw [close_eq H.emitted]
  · rw [close_eq H.emitted]

namespace Executor

variable {s t : Executor} {name : String} {size n : Nat} {lost : List Job}

theorem submit_ok {link : Trace.Link} {action : String} (h : s.submit link action = .ok t) :
    s.pool.closed = false ∧
      t = { s.setPool { s.pool with
              queue := s.pool.queue ++ [⟨s.accepted.length, link, action⟩]
              waiting := s.pool.waiting + 1 } with
            accepted := s.accepted ++ [⟨s.accepted.length, link, action⟩] } := by
  by_cases hclosed : s.pool.closed = true
  · rw [submit, Pool.submit, if_pos hclosed] at h
    cases h
  · rw [submit, Pool.submit, if_neg hclosed] at h
    cases h
    exact ⟨by simpa using hclosed, rfl⟩

/-! ## The books -/

/-- The jobs that were started and those in the queue are those that were accepted, in this order; a
job that was started is with one worker, has finished or was lost; the counters tell what there is,
and take the lost jobs for running ones. -/
structure Ledger (lost : List Job) (s : Executor) : Prop where
  order : s.started ++ s.pool.queue = s.accepted
  numbers : s.accepted.map Job.number = List.range s.accepted.length
  once : (lost ++ s.finished.map Finished.job ++ s.busy.map Busy.job).Perm s.started
  waiting : s.pool.waiting = s.pool.queue.length
  running : s.pool.running = s.busy.length + lost.length

theorem ledger_start : Ledger [] (start name size) where
  order := rfl
  numbers := rfl
  once := .nil
  waiting := rfl
  running := rfl

theorem Ledger.serve (H : Ledger lost s) (h : Serve s t) : Ledger lost t := by
  cases h with
  | join h => exact { H with }
  | take h =>
    obtain ⟨line, queue, -, hqueue, rfl⟩ := Crew.turn_takes h
    have order : s.started ++ _ :: queue = s.accepted := hqueue ▸ H.order
    have waiting : s.pool.waiting = queue.length + 1 := by rw [H.waiting, pool, hqueue]; rfl
    exact {
      order := by rw [← order]; exact List.append_assoc ..
      numbers := H.numbers
      once := by
        rw [List.map_append, ← List.append_assoc]
        exact H.once.append_right _
      waiting := by
        change s.pool.waiting - 1 = queue.length
        omega
      running := by
        change s.pool.running + 1 = (s.busy ++ [_]).length + lost.length
        rw [H.running, List.length_append, List.length_singleton, Nat.add_right_comm] }
  | leave h =>
    obtain ⟨line, -, -, -, rfl⟩ := Crew.turn_leaves h
    exact { H with }

theorem Ledger.setRecord {before after : List Busy} {b : Busy} {record : Option Record}
    (H : Ledger lost s) (h : s.busy = before ++ b :: after) :
    Ledger lost { s with busy := before ++ { b with record := record } :: after } := by
  have once := H.once
  have running := H.running
  rw [h] at once running
  exact { H with
    once := by simpa using once
    running := running.trans (by simp) }

theorem Ledger.perform (H : Ledger lost s) (h : Perform s t) : Ledger lost t := by
  cases h with
  | begin id o h => exact H.setRecord h
  | @finish before after worker job r e o h =>
    have once := H.once
    have running := H.running
    rw [h] at once running
    exact { H with
      once := by
        refine List.Perm.trans ?_ once
        simp only [List.map_append, List.map_cons, List.map_nil, List.append_assoc,
          List.singleton_append]
        exact (List.perm_middle.symm.append_left _).append_left _
      running := by
        change s.pool.running - 1 = (before ++ after).length + lost.length
        rw [running]
        simp only [List.length_append, List.length_cons]
        omega }

theorem Ledger.other (H : Ledger lost s) (h : Other s t) : Ledger lost t := by
  cases h with
  | write w h => exact H.setRecord h
  | submit link action h =>
    obtain ⟨-, rfl⟩ := submit_ok h
    exact { H with
      order := by
        rw [← H.order]
        exact (List.append_assoc ..).symm
      numbers := numbered_concat H.numbers rfl
      waiting := by
        change s.pool.waiting + 1 = (s.pool.queue ++ [_]).length
        rw [H.waiting, List.length_append, List.length_singleton] }
  | shutDown | await | look | pass => exact { H with }

/-! ## The workers -/

/-- Every worker arrives, stands in line, has a job or has left, and none but those that were lost
with their jobs leaves before the pool is closed and its queue is empty. -/
structure Staffed (name : String) (size : Nat) (lost : List Job) (s : Executor) : Prop where
  name : s.pool.name = name
  size : s.pool.size = max size 1
  workers : s.arriving.length + s.crew.line.length + s.busy.length + s.pool.left = s.pool.size
  losses : lost.length ≤ s.pool.left
  left : lost.length < s.pool.left → s.pool.closed = true ∧ s.pool.queue = []

theorem staffed_start : Staffed name size [] (start name size) where
  name := rfl
  size := rfl
  workers := List.length_range
  losses := Nat.le_refl 0
  left h := absurd h (Nat.lt_irrefl 0)

theorem Staffed.serve (H : Staffed name size lost s) (h : Serve s t) :
    Staffed name size lost t := by
  have workers := H.workers
  cases h with
  | @join before after worker h =>
    rw [h] at workers
    exact { H with
      workers := by
        change (before ++ after).length + (s.crew.line ++ [worker]).length + s.busy.length +
          s.pool.left = s.pool.size
        simp only [List.length_append, List.length_cons, List.length_nil] at workers ⊢
        omega }
  | take h =>
    obtain ⟨line, queue, hline, hqueue, rfl⟩ := Crew.turn_takes h
    rw [hline] at workers
    exact { H with
      workers := by
        change s.arriving.length + line.length + (s.busy ++ [_]).length + s.pool.left = s.pool.size
        simp only [List.length_append, List.length_cons, List.length_nil] at workers ⊢
        omega
      left := fun hleft => by
        have empty := (H.left hleft).2
        rw [pool, hqueue] at empty
        cases empty }
  | leave h =>
    obtain ⟨line, hline, hqueue, hclosed, rfl⟩ := Crew.turn_leaves h
    rw [hline] at workers
    exact { H with
      workers := by
        change s.arriving.length + line.length + s.busy.length + (s.pool.left + 1) = s.pool.size
        simp only [List.length_cons] at workers
        omega
      losses := Nat.le_succ_of_le H.losses
      left := fun _ => ⟨hclosed, hqueue⟩ }

theorem Staffed.setRecord {before after : List Busy} {b : Busy} {record : Option Record}
    (H : Staffed name size lost s) (h : s.busy = before ++ b :: after) :
    Staffed name size lost { s with busy := before ++ { b with record := record } :: after } := by
  have workers := H.workers
  rw [h] at workers
  exact { H with workers := by simpa [pool] using workers }

theorem Staffed.perform (H : Staffed name size lost s) (h : Perform s t) :
    Staffed name size lost t := by
  cases h with
  | begin id o h => exact H.setRecord h
  | @finish before after worker job r e o h =>
    have workers := H.workers
    rw [h] at workers
    exact { H with
      workers := by
        change (s.arriving ++ [worker]).length + s.crew.line.length + (before ++ after).length +
          s.pool.left = s.pool.size
        simp only [List.length_append, List.length_cons, List.length_nil] at workers ⊢
        omega }

theorem Staffed.other (H : Staffed name size lost s) (h : Other s t) :
    Staffed name size lost t := by
  cases h with
  | write w h => exact H.setRecord h
  | submit link action h =>
    obtain ⟨hopen, rfl⟩ := submit_ok h
    exact { H with
      left := fun hleft => by
        have closed := (H.left hleft).1
        rw [hopen] at closed
        cases closed }
  | shutDown => exact { H with left := fun hleft => ⟨rfl, (H.left hleft).2⟩ }
  | await | look | pass => exact { H with }

/-! ## The records -/

structure Recorded (s : Executor) : Prop where
  busy : ∀ b ∈ s.busy, ∀ r, b.record = some r → b.job.Owns r
  finished : ∀ f ∈ s.finished, f.Told

theorem recorded_start : Recorded (start name size) where
  busy _ hb := absurd hb List.not_mem_nil
  finished _ hf := absurd hf List.not_mem_nil

theorem Recorded.serve (H : Recorded s) (h : Serve s t) : Recorded t := by
  cases h with
  | join | leave => exact { H with }
  | take =>
    refine { H with busy := fun b hb r hr => ?_ }
    rcases List.mem_append.1 hb with hb | hb
    · exact H.busy b hb r hr
    · cases List.mem_singleton.1 hb
      cases hr

theorem Recorded.setRecord {before after : List Busy} {b : Busy} {r : Record} (H : Recorded s)
    (h : s.busy = before ++ b :: after) (hr : b.job.Owns r) :
    Recorded { s with busy := before ++ { b with record := some r } :: after } := by
  refine { H with busy := fun b' hb' r' hr' => ?_ }
  rcases List.mem_append.1 hb' with hb' | hb'
  · exact H.busy b' (h ▸ List.mem_append_left _ hb') r' hr'
  · rcases List.mem_cons.1 hb' with rfl | hb'
    · cases hr'
      exact hr
    · exact H.busy b' (h ▸ List.mem_append_right _ (List.mem_cons_of_mem _ hb')) r' hr'

theorem Recorded.perform (H : Recorded s) (h : Perform s t) : Recorded t := by
  cases h with
  | begin id o h => exact H.setRecord h (owns_startChild _ o.masked id o.now)
  | @finish before after worker job r e o h =>
    have owns : job.Owns r :=
      H.busy ⟨worker, job, some r⟩ (h ▸ List.mem_append_right _ List.mem_cons_self) r rfl
    refine ⟨fun b hb => H.busy b ?_, fun f hf => ?_⟩
    · rw [h]
      rcases List.mem_append.1 hb with hb | hb
      · exact List.mem_append_left _ hb
      · exact List.mem_append_right _ (List.mem_cons_of_mem _ hb)
    · rcases List.mem_append.1 hf with hf | hf
      · exact H.finished f hf
      · cases List.mem_singleton.1 hf
        exact told_close e o owns

theorem Recorded.other (H : Recorded s) (h : Other s t) : Recorded t := by
  cases h with
  | write w h =>
    have owns := H.busy _ (h ▸ List.mem_append_right _ List.mem_cons_self) _ rfl
    exact H.setRecord h (owns.write w)
  | submit link action h =>
    obtain ⟨-, rfl⟩ := submit_ok h
    exact { H with }
  | shutDown | await | look | pass => exact { H with }

end Executor

end Logbook.Work
