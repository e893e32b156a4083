import Mathlib.Logic.Relation
import Logbook.Proofs.Work.Conservation

/-! Jobs that panic while they are made ready. Nothing guards that moment: the panic passes the
boundary of the unit and ends the worker that runs it, the job leaves no record, and the number of
running jobs is not lowered any more. All other jobs are run as long as a worker is left
(`outlasts_of_reachable`). -/

namespace Logbook.Work

/-- An executor with the jobs that were lost, in this order. -/
structure Worn where
  executor : Executor
  lost : List Job

namespace Worn

def start (name : String) (size : Nat) : Worn := ⟨.start name size, []⟩

inductive Step : Worn → Worn → Prop where
  | advance {s t : Executor} {lost : List Job} (h : s.Advance t) : Step ⟨s, lost⟩ ⟨t, lost⟩
  /-- Without a worker nobody receives from the queue, and it takes no job. -/
  | other {s t : Executor} {lost : List Job} (h : s.Other t)
      (hreceived : s.pool.isTerminated = true → t.accepted = s.accepted) :
      Step ⟨s, lost⟩ ⟨t, lost⟩
  /-- The course of a job is `Course.unready`. -/
  | lose {s : Executor} {lost : List Job} {before after : List Busy} {worker : Nat} {job : Job}
      {r : Record} (h : s.busy = before ++ ⟨worker, job, some r⟩ :: after) :
      Step ⟨s, lost⟩ ⟨{ s.setPool s.pool.leave with busy := before ++ after }, lost ++ [job]⟩

def Reachable (name : String) (size : Nat) : Worn → Prop :=
  Relation.ReflTransGen Step (start name size)

/-- What an executor of a given size still promises when jobs are lost. -/
structure Outlasts (name : String) (size : Nat) (s : Worn) : Prop where
  order : s.executor.started ++ s.executor.pool.queue = s.executor.accepted
  /-- A job that was started is lost, has finished or runs on one worker. -/
  once : (s.lost ++ s.executor.finished.map Finished.job ++ s.executor.busy.map Busy.job).Perm
    s.executor.started
  told : ∀ f ∈ s.executor.finished, f.Told
  waiting : s.executor.pool.waiting = s.executor.pool.queue.length
  /-- A lost job is counted among the running ones for good. -/
  running : s.executor.pool.running = s.executor.busy.length + s.lost.length
  /-- Each loss costs a worker. -/
  workers : s.executor.busy.length + s.lost.length ≤ max size 1
  free : s.executor.pool.free + s.executor.busy.length + s.lost.length = max size 1
  /-- While a worker is left, the others come to their end without those that were lost. -/
  rest : s.lost.length < max size 1 → (∀ t, ¬ s.executor.Advance t) →
    (s.lost ++ s.executor.finished.map Finished.job).Perm s.executor.accepted ∧
      (s.executor.pool.closed = true → s.executor.AllLeft)
  /-- With as many losses as workers nothing happens to any job any more. -/
  exhausted : s.lost.length = max size 1 → s.executor.AllLeft ∧
    ∀ t, Relation.ReflTransGen Step s t → t.lost = s.lost ∧
      t.executor.accepted = s.executor.accepted ∧ t.executor.started = s.executor.started

variable {name : String} {size : Nat} {s t : Worn}

structure Inv (name : String) (size : Nat) (s : Worn) : Prop where
  ledger : s.executor.Ledger s.lost
  staffed : s.executor.Staffed name size s.lost
  recorded : s.executor.Recorded

/-- A lost job is no more with its worker, and the worker has left with it. -/
theorem Inv.lose {s : Executor} {lost : List Job} {before after : List Busy} {b : Busy}
    (H : Inv name size ⟨s, lost⟩) (h : s.busy = before ++ b :: after) :
    Inv name size
      ⟨{ s.setPool s.pool.leave with busy := before ++ after }, lost ++ [b.job]⟩ where
  ledger := by
    have once := H.ledger.once
    have running := H.ledger.running
    rw [h] at once running
    exact { H.ledger with
      once := by
        refine List.Perm.trans ?_ once
        simp only [List.map_append, List.map_cons, List.append_assoc, List.singleton_append]
        refine List.Perm.append_left lost ?_
        rw [← List.append_assoc, ← List.append_assoc]
        exact List.perm_middle.symm
      running := by
        change s.pool.running = (before ++ after).length + (lost ++ [b.job]).length
        rw [running]
        simp only [List.length_append, List.length_cons, List.length_nil]
        omega }
  staffed := by
    have workers := H.staffed.workers
    have losses := H.staffed.losses
    rw [h] at workers
    exact { H.staffed with
      workers := by
        change s.arriving.length + s.crew.line.length + (before ++ after).length +
          (s.pool.left + 1) = s.pool.size
        simp only [List.length_append, List.length_cons] at workers ⊢
        omega
      losses := by
        rw [List.length_append]
        exact Nat.succ_le_succ losses
      left := fun hleft => by
        rw [List.length_append] at hleft
        exact H.staffed.left (Nat.lt_of_succ_lt_succ hleft) }
  recorded := ⟨fun b' hb' => H.recorded.busy b' (by
    rw [h]
    exact List.mem_append.2 ((List.mem_append.1 hb').imp_right (List.mem_cons_of_mem b))),
    H.recorded.finished⟩

theorem Inv.step (H : Inv name size s) (h : Step s t) : Inv name size t := by
  cases h with
  | advance h =>
    rcases h with h | h
    · exact ⟨H.ledger.serve h, H.staffed.serve h, H.recorded.serve h⟩
    · exact ⟨H.ledger.perform h, H.staffed.perform h, H.recorded.perform h⟩
  | other h => exact ⟨H.ledger.other h, H.staffed.other h, H.recorded.other h⟩
  | lose h => exact H.lose h

theorem Reachable.inv (h : Reachable name size s) : Inv name size s := by
  induction h with
  | refl => exact ⟨Executor.ledger_start, Executor.staffed_start, Executor.recorded_start⟩
  | tail _ h ih => exact ih.step h

/-- Where all workers have left nobody moves, and nothing is accepted. -/
theorem Step.of_allLeft (h : Step s t) (hleft : s.executor.AllLeft)
    (hterminated : s.executor.pool.isTerminated = true) :
    t.lost = s.lost ∧ t.executor.accepted = s.executor.accepted ∧
      t.executor.started = s.executor.started := by
  cases h with
  | advance h =>
    rcases h with h | h
    · cases h with
      | join | leave => exact ⟨rfl, rfl, rfl⟩
      | take h =>
        obtain ⟨line, queue, hline, -⟩ := Crew.turn_takes h
        cases hleft.line.symm.trans hline
    · cases h <;> exact ⟨rfl, rfl, rfl⟩
  | other h hreceived =>
    refine ⟨rfl, hreceived hterminated, ?_⟩
    cases h with
    | submit link action h =>
      obtain ⟨-, rfl⟩ := Executor.submit_ok h
      rfl
    | write | shutDown | await | look | pass => rfl
  | lose h => exact absurd (h.symm.trans hleft.busy) (by simp)

theorem Inv.allLeft (H : Inv name size s) (hlost : s.lost.length = max size 1) :
    s.executor.AllLeft ∧ s.executor.pool.isTerminated = true := by
  have losses := H.staffed.losses
  have hterminated : s.executor.pool.isTerminated = true := by
    rw [Pool.isTerminated, decide_eq_true_eq, H.staffed.size, ← hlost]
    exact losses
  exact ⟨H.staffed.isTerminated_iff.1 hterminated, hterminated⟩

/-- **Losses cost no other job.** Where jobs panic while they are made ready, each accepted job is
in the queue, with a worker, finished with its record, or one of those. They stay counted as
running, and each of them ends one worker; while one is left the other jobs come to their end. -/
theorem outlasts_of_reachable (h : Reachable name size s) : s.Outlasts name size := by
  have H := h.inv
  have workers := H.staffed.workers
  have losses := H.staffed.losses
  have running := H.ledger.running
  have staff := H.staffed.size
  exact {
    order := H.ledger.order
    once := H.ledger.once
    told := H.recorded.finished
    waiting := H.ledger.waiting
    running := running
    workers := by omega
    free := by
      rw [Pool.free]
      omega
    rest := Executor.recorded_of_rest H.ledger H.staffed
    exhausted := by
      intro hlost
      refine ⟨(H.allLeft hlost).1, fun t ht => ?_⟩
      induction ht with
      | refl => exact ⟨rfl, rfl, rfl⟩
      | @tail u v hu h' ih =>
        have H' : Inv name size u := Reachable.inv (h.trans hu)
        obtain ⟨hleft, hterminated⟩ := H'.allLeft (ih.1 ▸ hlost)
        obtain ⟨hlost', haccepted, hstarted⟩ := h'.of_allLeft hleft hterminated
        exact ⟨hlost'.trans ih.1, haccepted.trans ih.2.1, hstarted.trans ih.2.2⟩ }

end Worn

end Logbook.Work
