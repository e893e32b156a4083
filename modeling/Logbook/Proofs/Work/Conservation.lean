import Logbook.Proofs.Work.Ledger

/-! An executor loses, doubles and reorders no job, also through its shutdown. Each move of a worker
brings it one step nearer to rest (`rank_run`), and at rest every accepted job has its record
(`recorded_of_rest`); closed, it rests only when all workers have left. Who waits for that is told
the truth, at the deadline at the latest (`awaited_true`, `awaited_false`). -/

namespace Logbook.Work.Executor

variable {s t : Executor} {name : String} {size n : Nat} {lost : List Job}

/-! ## The way to rest -/

/-- The moves that are left to the workers until they wait or have left, if no other job comes. -/
def rank (s : Executor) : Nat :=
  4 * s.pool.queue.length + 2 * s.arriving.length + s.crew.line.length + 3 * s.busy.length +
    s.busy.countP (·.record.isNone)

theorem rank_serve (h : Serve s t) : t.rank + 1 = s.rank := by
  cases h with
  | join h => simp [rank, pool, Crew.join, h]; omega
  | take h =>
    obtain ⟨line, queue, hline, hqueue, rfl⟩ := Crew.turn_takes h
    simp [rank, pool, hline, hqueue]; omega
  | leave h =>
    obtain ⟨line, hline, hqueue, -, rfl⟩ := Crew.turn_leaves h
    simp [rank, pool, Pool.leave, hline, hqueue]; omega

theorem rank_perform (h : Perform s t) : t.rank + 1 = s.rank := by
  cases h with
  | begin id o h => simp [rank, pool, h]; omega
  | finish e o h => simp [rank, pool, setPool, Pool.finish, h]; omega

theorem rank_other (h : Other s t) :
    t.rank + 4 * s.accepted.length = s.rank + 4 * t.accepted.length := by
  cases h with
  | write w h => simp [rank, pool, h]
  | submit link action h =>
    obtain ⟨-, rfl⟩ := submit_ok h
    simp [rank, pool, setPool]; omega
  | shutDown | await | look | pass => rfl

theorem accepted_advance (h : Advance s t) : t.accepted = s.accepted := by
  rcases h with h | h <;> cases h <;> rfl

/-- Each move of a worker is one less to come, and each accepted job brings four. -/
theorem rank_run (H : Run n s t) :
    n + t.rank + 4 * s.accepted.length = s.rank + 4 * t.accepted.length := by
  induction H with
  | refl => omega
  | advance _ h ih =>
    have hrank := h.elim rank_serve rank_perform
    rw [accepted_advance h]
    omega
  | other _ h ih =>
    have hrank := rank_other h
    omega

/-! ## Rest -/

/-- No worker is left. -/
structure AllLeft (s : Executor) : Prop where
  arriving : s.arriving = []
  line : s.crew.line = []
  busy : s.busy = []

theorem arriving_of_rest (h : ∀ t, ¬ Serve s t) : s.arriving = [] := by
  cases harriving : s.arriving with
  | nil => rfl
  | cons worker arriving =>
    have split : s.arriving = [] ++ worker :: arriving := harriving
    exact absurd (.join split) (h _)

/-- While a job waits, the first in line can take it. -/
theorem line_of_rest (h : ∀ t, ¬ Serve s t) (hqueue : s.pool.queue ≠ []) : s.crew.line = [] := by
  obtain ⟨job, queue, hqueue⟩ := List.exists_cons_of_ne_nil hqueue
  cases hline : s.crew.line with
  | nil => rfl
  | cons worker line =>
    obtain ⟨crew, hturn⟩ := Crew.turn_of_queue hline hqueue
    exact absurd (.take hturn) (h _)

theorem line_of_closed (h : ∀ t, ¬ Serve s t) (hqueue : s.pool.queue = [])
    (hclosed : s.pool.closed = true) : s.crew.line = [] := by
  cases hline : s.crew.line with
  | nil => rfl
  | cons worker line =>
    obtain ⟨crew, hturn⟩ := Crew.turn_of_closed hline hqueue hclosed
    exact absurd (.leave hturn) (h _)

theorem busy_of_rest (h : ∀ t, ¬ Perform s t) : s.busy = [] := by
  have o : Occasion := ⟨.empty, "", ⟨0, 0⟩⟩
  cases hbusy : s.busy with
  | nil => rfl
  | cons b busy =>
    obtain ⟨worker, job, record⟩ := b
    cases record with
    | none =>
      have split : s.busy = [] ++ ⟨worker, job, none⟩ :: busy := hbusy
      exact absurd (.begin "" o split) (h _)
    | some r =>
      have split : s.busy = [] ++ ⟨worker, job, some r⟩ :: busy := hbusy
      exact absurd (.finish .returned o split) (h _)

/-- Workers that are not lost leave a closed pool without jobs. -/
theorem Staffed.queue_of_allLeft (H : Staffed name size lost s) (hlost : lost.length < max size 1)
    (hleft : AllLeft s) : s.pool.closed = true ∧ s.pool.queue = [] := by
  refine H.left ?_
  have workers := H.workers
  rw [hleft.arriving, hleft.line, hleft.busy, H.size] at workers
  simp only [List.length_nil] at workers
  omega

/-- When no worker has a job and none is in the queue, all accepted jobs have finished, up to those
that were lost. -/
theorem Ledger.finished (H : Ledger lost s) (hqueue : s.pool.queue = []) (hbusy : s.busy = []) :
    (lost ++ s.finished.map Finished.job).Perm s.accepted := by
  have once := H.once
  rw [hbusy, List.map_nil, List.append_nil] at once
  rwa [← H.order, hqueue, List.append_nil]

/-- An executor in which no worker can move, and not all are lost, has recorded all jobs up to the
lost ones; closed, its workers have left. -/
theorem recorded_of_rest (H : Ledger lost s) (H' : Staffed name size lost s)
    (hlost : lost.length < max size 1) (h : ∀ t, ¬ Advance s t) :
    (lost ++ s.finished.map Finished.job).Perm s.accepted ∧
      (s.pool.closed = true → AllLeft s) := by
  have hserve : ∀ t, ¬ Serve s t := fun t ht => h t (.inl ht)
  have arriving : s.arriving = [] := arriving_of_rest hserve
  have busy : s.busy = [] := busy_of_rest fun t ht => h t (.inr ht)
  have queue : s.pool.queue = [] := by
    cases hqueue : s.pool.queue with
    | nil => rfl
    | cons job queue =>
      have hne : s.pool.queue ≠ [] := hqueue ▸ List.cons_ne_nil job queue
      exact absurd (H'.queue_of_allLeft hlost ⟨arriving, line_of_rest hserve hne, busy⟩).2 hne
  exact ⟨H.finished queue busy, fun hclosed =>
    ⟨arriving, line_of_closed hserve queue hclosed, busy⟩⟩

/-! ## After the shutdown -/

theorem submit_of_closed (hclosed : s.pool.closed = true) (link : Trace.Link) (action : String) :
    s.submit link action = .error ⟨s.pool.name⟩ := by
  rw [submit, Pool.submit, if_pos hclosed]
  rfl

/-- A closed pool stays closed and accepts nothing. -/
theorem closed_run (H : Run n s t) (hclosed : s.pool.closed = true) :
    t.pool.closed = true ∧ t.accepted = s.accepted := by
  refine H.keeps (P := fun t => t.pool.closed = true ∧ t.accepted = s.accepted) ?_ ?_
    ⟨hclosed, rfl⟩
  · rintro u v ⟨hu, haccepted⟩ h
    refine ⟨?_, (accepted_advance h).trans haccepted⟩
    rcases h with h | h
    · cases h with
      | join h => exact hu
      | take h =>
        obtain ⟨line, queue, -, -, rfl⟩ := Crew.turn_takes h
        exact hu
      | leave h =>
        obtain ⟨line, -, -, hclosed, rfl⟩ := Crew.turn_leaves h
        exact hclosed
    · cases h <;> exact hu
  · rintro u v ⟨hu, haccepted⟩ h
    cases h with
    | submit link action h =>
      rw [submit_of_closed hu] at h
      cases h
    | shutDown => exact ⟨rfl, haccepted⟩
    | write | await | look | pass => exact ⟨hu, haccepted⟩

/-! ## Waiting for the workers -/

/-- Nobody who waits is overdue. -/
def Punctual (s : Executor) : Prop := ∀ due ∈ s.waits, s.now ≤ due

theorem Punctual.advance (H : Punctual s) (h : Advance s t) : Punctual t := by
  rcases h with h | h <;> cases h <;> exact H

theorem Punctual.other (H : Punctual s) (h : Other s t) : Punctual t := by
  cases h with
  | write | shutDown => exact H
  | submit link action h =>
    obtain ⟨-, rfl⟩ := submit_ok h
    exact H
  | await budget =>
    intro due hdue
    rcases List.mem_append.1 hdue with hdue | hdue
    · exact H due hdue
    · rw [List.mem_singleton.1 hdue]
      exact Nat.le_add_right ..
  | look => exact fun due hdue => H due (List.mem_of_mem_erase hdue)
  | pass millis h => exact h

theorem Staffed.isTerminated_iff (H : Staffed name size lost s) :
    s.pool.isTerminated = true ↔ AllLeft s := by
  have workers := H.workers
  rw [Pool.isTerminated, decide_eq_true_eq]
  refine ⟨fun h => ⟨?_, ?_, ?_⟩, fun h => ?_⟩
  · exact List.eq_nil_of_length_eq_zero (by omega)
  · exact List.eq_nil_of_length_eq_zero (by omega)
  · exact List.eq_nil_of_length_eq_zero (by omega)
  · rw [h.arriving, h.line, h.busy] at workers
    simp only [List.length_nil] at workers
    omega

theorem Staffed.awaited_true (H : Staffed name size lost s) (due : Nat) :
    s.pool.awaited due s.now = some true ↔ AllLeft s := by
  rw [← H.isTerminated_iff, Pool.awaited]
  split
  · next h => exact ⟨fun _ => h, fun _ => rfl⟩
  · next h =>
    refine ⟨fun h' => ?_, fun h' => absurd h' h⟩
    split at h' <;> cases h'

theorem Staffed.awaited_false (H : Staffed name size lost s) (due : Nat) :
    s.pool.awaited due s.now = some false ↔ ¬ AllLeft s ∧ due ≤ s.now := by
  rw [← H.isTerminated_iff, Pool.awaited]
  split
  · next h => exact ⟨fun h' => (by cases h'), fun h' => absurd h h'.1⟩
  · next h =>
    split
    · next hdue => exact ⟨fun _ => ⟨h, hdue⟩, fun _ => rfl⟩
    · next hdue => exact ⟨fun h' => (by cases h'), fun h' => absurd h'.2 hdue⟩

/-- Workers that have left do not come back. -/
theorem allLeft_run (H : Run n s t) (hs : AllLeft s) : AllLeft t := by
  refine H.keeps ?_ ?_ hs
  · rintro u v hu (h | h)
    · cases h with
      | join h => simp [hu.arriving] at h
      | take h =>
        obtain ⟨line, queue, hline, -, -⟩ := Crew.turn_takes h
        cases hu.line.symm.trans hline
      | leave h =>
        obtain ⟨line, hline, -, -, -⟩ := Crew.turn_leaves h
        cases hu.line.symm.trans hline
    · cases h with
      | begin id o h => simp [hu.busy] at h
      | finish e o h => simp [hu.busy] at h
  · rintro u v hu h
    cases h with
    | write w h => simp [hu.busy] at h
    | submit link action h =>
      obtain ⟨-, rfl⟩ := submit_ok h
      exact { hu with }
    | shutDown | await | look | pass => exact { hu with }

/-! ## Conservation -/

/-- What an executor of a given size promises in a state, for that state and all runs from it. -/
structure Conserves (name : String) (size : Nat) (s : Executor) : Prop where
  /-- Jobs start in the order in which they were accepted. -/
  order : s.started ++ s.pool.queue = s.accepted
  /-- No two jobs that were accepted are the same. -/
  numbers : s.accepted.map Job.number = List.range s.accepted.length
  /-- A job that was started runs on one worker or has finished. -/
  once : (s.finished.map Finished.job ++ s.busy.map Busy.job).Perm s.started
  /-- A job that has finished has emitted one record, of type executor. -/
  told : ∀ f ∈ s.finished, f.Told
  bound : s.busy.length ≤ max size 1
  /-- If no worker without a job can move and a job waits, then no worker is without a job. -/
  idle : (∀ t, ¬ Serve s t) → s.pool.queue ≠ [] → s.arriving = [] ∧ s.crew.line = []
  /-- The workers come nearer to rest by each of their moves, whatever else happens. -/
  progress : ∀ n t, Run n s t →
    n + t.rank + 4 * s.accepted.length = s.rank + 4 * t.accepted.length
  /-- At rest all accepted jobs have finished, and after a shutdown all workers have left. -/
  rest : (∀ t, ¬ Advance s t) →
    (s.finished.map Finished.job).Perm s.accepted ∧ (s.pool.closed = true → AllLeft s)
  /-- After a shutdown nothing is accepted, and the workers still have the same way to go. -/
  shutDown : ∀ n t, Run n (s.setPool s.pool.close) t →
    (∀ link action, t.submit link action = .error ⟨name⟩) ∧ t.accepted = s.accepted ∧
      n + t.rank = s.rank
  /-- Those who wait are told at their deadline at the latest. -/
  punctual : ∀ due ∈ s.waits, s.now ≤ due
  awaitedTrue : ∀ due ∈ s.waits, s.pool.awaited due s.now = some true ↔ AllLeft s
  awaitedFalse : ∀ due ∈ s.waits,
    s.pool.awaited due s.now = some false ↔ ¬ AllLeft s ∧ s.now = due
  /-- When all workers have left, the work is done for good. -/
  allLeft : AllLeft s → s.pool.closed = true ∧ s.pool.queue = [] ∧ s.pool.waiting = 0 ∧
    s.pool.running = 0 ∧ (s.finished.map Finished.job).Perm s.accepted ∧
    ∀ n t, Run n s t → AllLeft t

/-- What is kept by every move. -/
structure Inv (name : String) (size : Nat) (s : Executor) : Prop where
  ledger : Ledger [] s
  staffed : Staffed name size [] s
  recorded : Recorded s
  punctual : Punctual s

theorem inv_of_reachable (H : Reachable name size s) : Inv name size s := by
  obtain ⟨n, H⟩ := H
  refine H.keeps ?_ ?_ ⟨ledger_start, staffed_start, recorded_start, nofun⟩
  · rintro u v hu h
    have punctual := hu.punctual.advance h
    rcases h with h | h
    · exact ⟨hu.ledger.serve h, hu.staffed.serve h, hu.recorded.serve h, punctual⟩
    · exact ⟨hu.ledger.perform h, hu.staffed.perform h, hu.recorded.perform h, punctual⟩
  · rintro u v hu h
    exact ⟨hu.ledger.other h, hu.staffed.other h, hu.recorded.other h, hu.punctual.other h⟩

/-- All jobs that were accepted have finished, and each has told of it. -/
structure Done (s : Executor) : Prop where
  running : s.pool.running = 0
  waiting : s.pool.waiting = 0
  finished : (s.finished.map Finished.job).Perm s.accepted
  told : ∀ f ∈ s.finished, f.Told

theorem Inv.queue_of_allLeft (H : Inv name size s) (hleft : AllLeft s) :
    s.pool.closed = true ∧ s.pool.queue = [] :=
  H.staffed.queue_of_allLeft (Nat.le_max_right size 1) hleft

theorem Inv.running (H : Inv name size s) : s.pool.running = s.busy.length := H.ledger.running

theorem Inv.done (H : Inv name size s) (hleft : AllLeft s) : Done s where
  running := by rw [H.running, hleft.busy, List.length_nil]
  waiting := by rw [H.ledger.waiting, (H.queue_of_allLeft hleft).2, List.length_nil]
  finished := H.ledger.finished (H.queue_of_allLeft hleft).2 hleft.busy
  told := H.recorded.finished

/-- **An executor loses, doubles and reorders nothing**, in any order of the moves of its workers,
of submissions, of its shutdown and of waits. -/
theorem conserves_of_reachable (name : String) (size : Nat) (s : Executor)
    (h : Reachable name size s) : Conserves name size s := by
  have H := inv_of_reachable h
  exact {
    order := H.ledger.order
    numbers := H.ledger.numbers
    once := H.ledger.once
    told := H.recorded.finished
    bound := by
      have workers := H.staffed.workers
      rw [H.staffed.size] at workers
      omega
    idle := fun hserve hqueue => ⟨arriving_of_rest hserve, line_of_rest hserve hqueue⟩
    progress := fun _ _ => rank_run
    rest := recorded_of_rest H.ledger H.staffed (Nat.le_max_right size 1)
    shutDown := by
      intro n t hrun
      obtain ⟨hclosed, haccepted⟩ := closed_run hrun rfl
      obtain ⟨m, hs⟩ := h
      have reachable : Reachable name size t := ⟨m + n, (hs.other .shutDown).trans hrun⟩
      have hname : t.pool.name = name := (inv_of_reachable reachable).staffed.name
      refine ⟨fun link action => ?_, haccepted, ?_⟩
      · rw [submit_of_closed hclosed, hname]
      · have hrank := rank_run hrun
        rw [haccepted] at hrank
        exact Nat.add_right_cancel hrank
    punctual := H.punctual
    awaitedTrue := fun due _ => H.staffed.awaited_true due
    awaitedFalse := by
      intro due hdue
      have hnow := H.punctual due hdue
      rw [H.staffed.awaited_false]
      exact and_congr_right fun _ => ⟨fun h => Nat.le_antisymm hnow h, fun h => h ▸ Nat.le_refl _⟩
    allLeft := by
      intro hleft
      obtain ⟨hclosed, hqueue⟩ := H.queue_of_allLeft hleft
      refine ⟨hclosed, hqueue, ?_, ?_, H.ledger.finished hqueue hleft.busy, fun _ _ hrun =>
        allLeft_run hrun hleft⟩
      · rw [H.ledger.waiting, hqueue, List.length_nil]
      · rw [H.running, hleft.busy, List.length_nil] }

/-- One worker, one job that panics after the executor was shut down. -/
theorem conserves_latePanic : ∃ s, Reachable "jobs" 0 s ∧ AllLeft s ∧
    (s.finished.map Finished.job).Perm [⟨0, ⟨"", ""⟩, "work"⟩] ∧ ∀ f ∈ s.finished, f.Told := by
  have o : Occasion := ⟨.empty, "trace", ⟨0, 0⟩⟩
  have one : ([0] : List Nat) = [] ++ 0 :: [] := rfl
  have submitted : Run 0 (start "jobs" 0) _ := .other .refl (.submit ⟨"", ""⟩ "work" rfl)
  have taken : Run 2 (start "jobs" 0) _ :=
    .advance (.advance submitted (.inl (.join one))) (.inl (@Serve.take _ 0 _ _ rfl))
  have begun : Run 3 (start "jobs" 0) _ :=
    .advance (.other taken .shutDown) (.inr (.begin "id" o (List.nil_append _).symm))
  have ended : Run 4 (start "jobs" 0) _ :=
    .advance begun (.inr (.finish (.panicked (.text "boom")) o (List.nil_append _).symm))
  have left : Run 6 (start "jobs" 0) _ :=
    .advance (.advance ended (.inl (.join one))) (.inl (@Serve.leave _ 0 _ rfl))
  have conserves := conserves_of_reachable "jobs" 0 _ ⟨6, left⟩
  obtain ⟨-, -, -, -, perm, -⟩ := conserves.allLeft ⟨rfl, rfl, rfl⟩
  exact ⟨_, ⟨6, left⟩, ⟨rfl, rfl, rfl⟩, perm, conserves.told⟩

end Logbook.Work.Executor
