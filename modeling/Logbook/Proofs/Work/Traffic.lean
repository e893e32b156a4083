import Mathlib.Logic.Relation
import Logbook.Proofs.Work.Gauges
import Logbook.Proofs.Work.Ledger

/-! A pool on several threads. Each move stops behind each of its parts, and a part changes one
counter, the queue or one gauge, or reads one counter. So the counters are ahead of the queue or
behind it by the jobs on their way, but none is lowered below zero (`Counted.step`). A submission
that finds the queue closed is refused and changes nothing: it is no move.

Whoever has changed a counter tells the load of the pool after that, and no lock is held from what
is read to what is set; so the publications of several threads mix part by part. -/

namespace Logbook.Work

open scoped List

/-! ## Parts of moves -/

namespace Pool

variable {α : Type} {p : Pool α}

/-- A job is counted before it is sent. -/
def raise (p : Pool α) : Pool α := { p with waiting := p.waiting + 1 }

def send (job : α) (p : Pool α) : Pool α := { p with queue := p.queue ++ [job] }

def receive? (p : Pool α) : Option (α × Pool α) :=
  match p.queue with
  | [] => none
  | job :: queue => some (job, { p with queue := queue })

def lower (p : Pool α) : Pool α := { p with waiting := p.waiting - 1 }

def engage (p : Pool α) : Pool α := { p with running := p.running + 1 }

theorem receive?_eq_some {q : Pool α} {job : α} (h : p.receive? = some (job, q)) :
    ∃ queue, p.queue = job :: queue ∧ q = { p with queue := queue } := by
  cases hqueue : p.queue with
  | nil => simp [receive?, hqueue] at h
  | cons first queue =>
    simp only [receive?, hqueue, Option.some.injEq, Prod.mk.injEq] at h
    exact ⟨queue, by rw [h.1], h.2.symm⟩

/-- A submission in its parts. -/
theorem submit_ok {q : Pool α} {job : α} (h : p.submit job = .ok q) :
    p.closed = false ∧ q = p.raise.send job := by
  by_cases hclosed : p.closed = true
  · rw [submit, if_pos hclosed] at h
    cases h
  · rw [submit, if_neg hclosed] at h
    cases h
    exact ⟨Bool.eq_false_iff.mpr hclosed, rfl⟩

/-- What a worker does that takes a job, in its parts. -/
theorem take?_eq_some {q : Pool α} {job : α} (h : p.take? = some (job, q)) :
    ∃ r, p.receive? = some (job, r) ∧ q = r.lower.engage := by
  cases hqueue : p.queue with
  | nil => simp [take?, hqueue] at h
  | cons first queue =>
    simp only [take?, hqueue, Option.some.injEq, Prod.mk.injEq] at h
    exact ⟨{ p with queue := queue }, by rw [receive?, hqueue, h.1], h.2.symm⟩

end Pool

/-- How far somebody is with telling the load of a pool. Publications have their turns in the order
in which they begin. -/
inductive Telling where
  /-- A counter was changed, and none was read since. -/
  | due
  /-- The number of running jobs was read. -/
  | half (turn running : Nat)
  /-- All that is told was read, and these gauges are left to set. -/
  | sets (turn : Nat) (todo : List (Metrics.Key × Nat))

/-- The metrics, the number of publications that have begun, and which of them have set which gauges
so far, in this order. -/
structure Board where
  metrics : Metrics
  begun : Nat
  written : List (Nat × Metrics.Key)

def Board.set (turn : Nat) (gauge : Metrics.Key × Nat) (b : Board) : Board :=
  { b with
    metrics := b.metrics.setGauge gauge.1 gauge.2
    written := b.written ++ [(turn, gauge.1)] }

/-- A part of a publication. -/
inductive Telling.Part {α : Type} (p : Pool α) (b : Board) :
    Telling → Board → Option Telling → Prop where
  | begins : Part p b .due { b with begun := b.begun + 1 } (some (.half (b.begun + 1) p.running))
  | reads {turn running : Nat} : Part p b (.half turn running) b
      (some (.sets turn (Metrics.loadGauges p.name ⟨running, p.size - running, p.waiting⟩)))
  | sets {turn : Nat} {gauge : Metrics.Key × Nat} {todo : List (Metrics.Key × Nat)} :
      Part p b (.sets turn (gauge :: todo)) (b.set turn gauge) (some (.sets turn todo))
  | ends {turn : Nat} : Part p b (.sets turn []) b none

/-! ## Pools on threads -/

/-- Where a worker is with its job. -/
inductive Place (α : Type) where
  | idle
  /-- It has not yet lowered the number of waiting jobs. -/
  | received (job : α)
  /-- It has not yet raised the number of running jobs. -/
  | lowered (job : α)
  | busy (job : α)
  /-- The job has ended, and is still counted. -/
  | ended (job : α)
  | left

namespace Place

variable {α : Type}

/-- The job that was taken and has not ended. -/
def job? : Place α → Option α
  | received job | lowered job | busy job => some job
  | idle | ended _ | left => none

def isReceived : Place α → Bool
  | received _ => true
  | _ => false

def isLowered : Place α → Bool
  | lowered _ => true
  | _ => false

def isEnded : Place α → Bool
  | ended _ => true
  | _ => false

def hasLeft : Place α → Bool
  | left => true
  | _ => false

/-- It counts among the running jobs. -/
def isRunning : Place α → Bool
  | busy _ | ended _ => true
  | _ => false

/-- The worker is not in the middle of a move: it waits, runs its job or has left. -/
def isResting : Place α → Bool
  | idle | busy _ | left => true
  | received _ | lowered _ | ended _ => false

variable {place : Place α}

theorem isReceived_of_isResting (h : place.isResting = true) : place.isReceived = false := by
  cases place <;> first | rfl | cases h

theorem isLowered_of_isResting (h : place.isResting = true) : place.isLowered = false := by
  cases place <;> first | rfl | cases h

theorem isEnded_of_isResting (h : place.isResting = true) : place.isEnded = false := by
  cases place <;> first | rfl | cases h

end Place

/-- A worker, and how far it is with telling the load; it goes on when that is done. -/
structure Worker (α : Type) where
  place : Place α
  telling : Option Telling

namespace Worker

variable {α : Type}

def count (p : Place α → Bool) (workers : List (Worker α)) : Nat := workers.countP (p ·.place)

/-- The jobs that were taken and have not ended. -/
def held (workers : List (Worker α)) : List α := workers.filterMap (·.place.job?)

theorem count_split (p : Place α → Bool) (before after : List (Worker α)) (w : Worker α) :
    count p (before ++ w :: after) = count p (before ++ after) + (p w.place).toNat := by
  simp only [count, List.countP_append, List.countP_cons]
  cases p w.place <;> simp [Nat.add_assoc]

/-- The job of one worker among those of the others, and other jobs besides. -/
theorem perm_held (jobs : List α) (before after : List (Worker α)) (w : Worker α) :
    (jobs ++ held (before ++ w :: after)).Perm
      (jobs ++ w.place.job?.toList ++ held (before ++ after)) := by
  have hsplit : held (before ++ w :: after) =
      held before ++ (w.place.job?.toList ++ held after) := by
    simp only [held, List.filterMap_append, List.filterMap_cons]
    cases w.place.job? <;> rfl
  have hothers : held (before ++ after) = held before ++ held after := List.filterMap_append ..
  rw [hsplit, hothers, List.append_assoc]
  exact (List.perm_append_comm_assoc ..).append_left jobs

/-- The workers that count as running are those with a job, but for those who have not counted it
yet or count one that has ended. -/
theorem count_running (workers : List (Worker α)) :
    count Place.isRunning workers + count Place.isReceived workers +
        count Place.isLowered workers =
      (held workers).length + count Place.isEnded workers := by
  induction workers with
  | nil => rfl
  | cons w workers ih =>
    have hcount (p : Place α → Bool) := count_split p [] workers w
    have hheld := (perm_held [] [] workers w).length_eq
    have hplace : w.place.isRunning.toNat + w.place.isReceived.toNat + w.place.isLowered.toNat =
        w.place.job?.toList.length + w.place.isEnded.toNat := by
      cases w.place <;> rfl
    simp only [List.nil_append, List.length_append] at hcount hheld
    rw [hcount, hcount, hcount, hcount, hheld]
    omega

end Worker

structure Traffic (α : Type) where
  pool : Pool α
  board : Board
  /-- The job of the one who submits, which is counted and not yet sent. The lock of the queue lets
  in one at a time, until the load has been told. -/
  sending : Option α
  /-- How far the one who submits is with telling the load. -/
  telling : Option Telling
  workers : List (Worker α)
  /-- The jobs that the queue has taken. -/
  accepted : List α
  /-- The jobs that workers have received. -/
  taken : List α
  finished : List α

namespace Traffic

variable {α : Type} {name : String} {size n : Nat} {m : Metrics} {s t : Traffic α}

/-- A pool that has told its load once. -/
def start (name : String) (size : Nat) (m : Metrics) : Traffic α where
  pool := .ofSize name size
  board := ⟨m.recordLoad name (Pool.ofSize name size : Pool α).load, 0, []⟩
  sending := none
  telling := none
  workers := List.replicate (max size 1) ⟨.idle, none⟩
  accepted := []
  taken := []
  finished := []

/-- A part of a move. -/
inductive Move (s : Traffic α) : Traffic α → Prop where
  | raises (job : α) (hopen : s.pool.closed = false) (hsending : s.sending = none)
      (htelling : s.telling = none) :
      Move s { s with pool := s.pool.raise, sending := some job }
  | sends {job : α} (hsending : s.sending = some job) :
      Move s { s with
        pool := s.pool.send job
        sending := none
        telling := some .due
        accepted := s.accepted ++ [job] }
  /-- Nobody is left to receive: the job is not taken, and not counted any more. -/
  | unsent {job : α} (hsending : s.sending = some job)
      (hleft : ∀ w ∈ s.workers, w.place.hasLeft = true) :
      Move s { s with pool := s.pool.lower, sending := none }
  | closes (hsending : s.sending = none) (htelling : s.telling = none) :
      Move s { s with pool := s.pool.close }
  | receives {before after : List (Worker α)} {job : α} {p : Pool α}
      (h : s.workers = before ++ ⟨.idle, none⟩ :: after)
      (hreceive : s.pool.receive? = some (job, p)) :
      Move s { s with
        pool := p
        workers := before ++ ⟨.received job, none⟩ :: after
        taken := s.taken ++ [job] }
  | lowers {before after : List (Worker α)} {job : α}
      (h : s.workers = before ++ ⟨.received job, none⟩ :: after) :
      Move s { s with
        pool := s.pool.lower
        workers := before ++ ⟨.lowered job, none⟩ :: after }
  | engages {before after : List (Worker α)} {job : α}
      (h : s.workers = before ++ ⟨.lowered job, none⟩ :: after) :
      Move s { s with
        pool := s.pool.engage
        workers := before ++ ⟨.busy job, some .due⟩ :: after }
  | ends {before after : List (Worker α)} {job : α}
      (h : s.workers = before ++ ⟨.busy job, none⟩ :: after) :
      Move s { s with
        workers := before ++ ⟨.ended job, none⟩ :: after
        finished := s.finished ++ [job] }
  | finishes {before after : List (Worker α)} {job : α}
      (h : s.workers = before ++ ⟨.ended job, none⟩ :: after) :
      Move s { s with
        pool := s.pool.finish
        workers := before ++ ⟨.idle, some .due⟩ :: after }
  | leaves {before after : List (Worker α)} (h : s.workers = before ++ ⟨.idle, none⟩ :: after)
      (hleave : s.pool.mayLeave = true) :
      Move s { s with
        pool := s.pool.leave
        workers := before ++ ⟨.left, none⟩ :: after }
  /-- The one who submits tells the load. -/
  | told {telling : Telling} {b : Board} {next : Option Telling} (h : s.telling = some telling)
      (hpart : telling.Part s.pool s.board b next) :
      Move s { s with board := b, telling := next }
  /-- A worker tells the load. -/
  | tells {before after : List (Worker α)} {place : Place α} {telling : Telling} {b : Board}
      {next : Option Telling} (h : s.workers = before ++ ⟨place, some telling⟩ :: after)
      (hpart : telling.Part s.pool s.board b next) :
      Move s { s with board := b, workers := before ++ ⟨place, next⟩ :: after }

/-- A part of a move of the pool, or anything that is measured elsewhere, also under its name. -/
inductive Step (s : Traffic α) : Traffic α → Prop where
  | move {t : Traffic α} (h : Move s t) : Step s t
  | elsewhere (m : Metrics) : Step s { s with board := { s.board with metrics := m } }

def Reachable (name : String) (size : Nat) (m : Metrics) : Traffic α → Prop :=
  Relation.ReflTransGen Step (start name size m)

/-! ## Counters -/

/-- The counters differ from what there is by the jobs on their way, and every worker is
somewhere. -/
structure Counted (name : String) (size : Nat) (s : Traffic α) : Prop where
  name : s.pool.name = name
  staff : s.pool.size = max size 1
  workers : s.workers.length = max size 1
  order : s.taken ++ s.pool.queue = s.accepted
  once : (s.finished ++ Worker.held s.workers).Perm s.taken
  waiting : s.pool.waiting =
    s.sending.toList.length + s.pool.queue.length + Worker.count Place.isReceived s.workers
  running : s.pool.running = Worker.count Place.isRunning s.workers
  sending : s.sending ≠ none → s.pool.closed = false
  left : ∀ w ∈ s.workers, w.place.hasLeft = true → s.pool.closed = true ∧ s.pool.queue = []

theorem counted_start : (start name size m : Traffic α).Counted name size where
  name := rfl
  staff := rfl
  workers := List.length_replicate
  order := rfl
  once := by
    have hheld : Worker.held (start name size m : Traffic α).workers = [] := by
      rw [Worker.held, List.filterMap_eq_nil_iff]
      intro w hw
      rw [List.eq_of_mem_replicate hw]
      rfl
    rw [hheld]
    exact .refl _
  waiting := by
    rw [Worker.count, start, List.countP_replicate]
    rfl
  running := by
    rw [Worker.count, start, List.countP_replicate]
    rfl
  sending h := absurd rfl h
  left w hw h := by
    rw [List.eq_of_mem_replicate hw] at h
    cases h

variable {before after : List (Worker α)} {w w' : Worker α}

/-- A worker goes on, with a part of its move that leaves the queue alone. -/
theorem Counted.replace (H : s.Counted name size) (h : s.workers = before ++ w :: after)
    {p : Pool α} {finished : List α} (b : Board)
    (hpool : p.name = s.pool.name ∧ p.size = s.pool.size ∧ p.queue = s.pool.queue ∧
      p.closed = s.pool.closed)
    (honce : (finished ++ w'.place.job?.toList).Perm (s.finished ++ w.place.job?.toList))
    (hwaiting : p.waiting + w.place.isReceived.toNat =
      s.pool.waiting + w'.place.isReceived.toNat)
    (hrunning : p.running + w.place.isRunning.toNat = s.pool.running + w'.place.isRunning.toNat)
    (hleft : w'.place.hasLeft = true → w.place.hasLeft = true ∨
      s.pool.closed = true ∧ s.pool.queue = []) :
    Counted name size { s with
      pool := p
      board := b
      workers := before ++ w' :: after
      finished := finished } where
  name := hpool.1.trans H.name
  staff := hpool.2.1.trans H.staff
  workers := by
    have workers := H.workers
    rw [h] at workers
    simpa using workers
  order := (congrArg (s.taken ++ ·) hpool.2.2.1).trans H.order
  once := by
    have once := H.once
    rw [h] at once
    calc finished ++ Worker.held (before ++ w' :: after)
        ~ finished ++ w'.place.job?.toList ++ Worker.held (before ++ after) :=
          Worker.perm_held ..
      _ ~ s.finished ++ w.place.job?.toList ++ Worker.held (before ++ after) :=
          honce.append_right _
      _ ~ s.finished ++ Worker.held (before ++ w :: after) := (Worker.perm_held ..).symm
      _ ~ s.taken := once
  waiting := by
    have waiting := H.waiting
    rw [h, Worker.count_split] at waiting
    change p.waiting = s.sending.toList.length + p.queue.length +
      Worker.count _ (before ++ w' :: after)
    rw [Worker.count_split, hpool.2.2.1]
    omega
  running := by
    have running := H.running
    rw [h, Worker.count_split] at running
    change p.running = Worker.count _ (before ++ w' :: after)
    rw [Worker.count_split]
    omega
  sending hsending := hpool.2.2.2.trans (H.sending hsending)
  left := by
    rw [hpool.2.2.2, hpool.2.2.1]
    intro v hv hgone
    rcases mem_between.mp hv with rfl | hv
    · rcases hleft hgone with hgone | hempty
      · exact H.left w (h ▸ mem_between.mpr (.inl rfl)) hgone
      · exact hempty
    · exact H.left v (h ▸ mem_between.mpr (.inr hv)) hgone

/-- The one who submits has a job in hand or none. -/
theorem Counted.waiting_of_sending (H : s.Counted name size) {sending : Option α}
    (h : s.sending = sending) : s.pool.waiting =
      sending.toList.length + s.pool.queue.length + Worker.count Place.isReceived s.workers :=
  h ▸ H.waiting

theorem Counted.raise (H : s.Counted name size) (job : α) (hopen : s.pool.closed = false)
    (h : s.sending = none) : Counted name size { s with
      pool := s.pool.raise
      sending := some job } :=
  { H with
    waiting := by
      have waiting := H.waiting_of_sending h
      change s.pool.waiting + 1 =
        1 + s.pool.queue.length + Worker.count Place.isReceived s.workers
      rw [waiting, Option.toList_none, List.length_nil]
      omega
    sending := fun _ => hopen }

theorem Counted.send (H : s.Counted name size) {job : α} (h : s.sending = some job) :
    Counted name size { s with
      pool := s.pool.send job
      sending := none
      telling := some .due
      accepted := s.accepted ++ [job] } :=
  { H with
    order := (List.append_assoc ..).symm.trans (congrArg (· ++ [job]) H.order)
    waiting := by
      have waiting := H.waiting_of_sending h
      change s.pool.waiting =
        0 + (s.pool.queue ++ [job]).length + Worker.count Place.isReceived s.workers
      rw [waiting, Option.toList_some, List.length_append, List.length_singleton]
      omega
    sending := fun h => absurd rfl h
    left := fun w hw hgone => by
      have hopen : s.pool.closed = false := H.sending (h ▸ Option.some_ne_none job)
      cases (H.left w hw hgone).1.symm.trans hopen }

theorem Counted.unsend (H : s.Counted name size) {job : α} (h : s.sending = some job) :
    Counted name size { s with pool := s.pool.lower, sending := none } :=
  { H with
    waiting := by
      have waiting := H.waiting_of_sending h
      change s.pool.waiting - 1 =
        0 + s.pool.queue.length + Worker.count Place.isReceived s.workers
      rw [waiting, Option.toList_some, List.length_singleton]
      omega
    sending := fun h => absurd rfl h }

theorem Counted.receive (H : s.Counted name size) {job : α} {queue : List α}
    (h : s.workers = before ++ ⟨.idle, none⟩ :: after) (hqueue : s.pool.queue = job :: queue) :
    Counted name size { s with
      pool := { s.pool with queue := queue }
      workers := before ++ ⟨.received job, none⟩ :: after
      taken := s.taken ++ [job] } where
  name := H.name
  staff := H.staff
  workers := by
    have workers := H.workers
    rw [h] at workers
    simpa using workers
  order := by
    rw [← H.order, hqueue]
    exact List.append_assoc ..
  once := by
    have once := H.once
    rw [h] at once
    calc s.finished ++ Worker.held (before ++ ⟨.received job, none⟩ :: after)
        ~ s.finished ++ [job] ++ Worker.held (before ++ after) := Worker.perm_held ..
      _ ~ s.finished ++ [] ++ Worker.held (before ++ after) ++ [job] := by
          rw [List.append_nil, List.append_assoc, List.append_assoc]
          exact List.perm_append_comm.append_left _
      _ ~ s.finished ++ Worker.held (before ++ ⟨.idle, none⟩ :: after) ++ [job] :=
          (Worker.perm_held s.finished before after ⟨.idle, none⟩).symm.append_right _
      _ ~ s.taken ++ [job] := once.append_right _
  waiting := by
    have waiting := H.waiting
    rw [h, hqueue, Worker.count_split] at waiting
    change _ = _ + (queue.length + 1) + (_ + 0) at waiting
    change s.pool.waiting = s.sending.toList.length + queue.length +
      Worker.count Place.isReceived (before ++ _ :: after)
    rw [Worker.count_split]
    change _ = _ + (_ + 1)
    omega
  running := by
    have running := H.running
    rw [h, Worker.count_split] at running
    change s.pool.running = Worker.count Place.isRunning (before ++ _ :: after)
    rw [Worker.count_split, running]
    rfl
  sending := H.sending
  left v hv hgone := by
    rcases mem_between.mp hv with rfl | hv
    · cases hgone
    · cases (H.left v (h ▸ mem_between.mpr (.inr hv)) hgone).2.symm.trans hqueue

/-- While somebody submits, there is a worker who receives. -/
theorem Counted.exists_present (H : s.Counted name size) (h : s.sending ≠ none) :
    ∃ w ∈ s.workers, w.place.hasLeft = false := by
  have hpos : 0 < s.workers.length := H.workers ▸ Nat.le_max_right size 1
  obtain ⟨w, hw⟩ := List.exists_mem_of_length_pos hpos
  refine ⟨w, hw, Bool.eq_false_iff.mpr fun hgone => ?_⟩
  cases (H.sending h).symm.trans (H.left w hw hgone).1

theorem Counted.step (H : s.Counted name size) (h : s.Move t) : t.Counted name size := by
  cases h with
  | raises job hopen hsending => exact H.raise job hopen hsending
  | sends hsending => exact H.send hsending
  | unsent hsending => exact H.unsend hsending
  | closes hsending =>
    exact { H with
      sending := fun h => absurd hsending h
      left := fun w hw hgone => ⟨rfl, (H.left w hw hgone).2⟩ }
  | receives h hreceive =>
    obtain ⟨queue, hqueue, rfl⟩ := Pool.receive?_eq_some hreceive
    exact H.receive h hqueue
  | lowers h =>
    refine H.replace h _ ⟨rfl, rfl, rfl, rfl⟩ (.refl _) ?_ rfl nofun
    have hpos : 0 < s.pool.waiting := by
      have waiting := H.waiting
      rw [h, Worker.count_split] at waiting
      change _ = _ + (_ + 1) at waiting
      omega
    exact Nat.sub_add_cancel hpos
  | engages h => exact H.replace h _ ⟨rfl, rfl, rfl, rfl⟩ (.refl _) rfl rfl nofun
  | ends h =>
    exact H.replace h _ ⟨rfl, rfl, rfl, rfl⟩ (.of_eq (List.append_nil _)) rfl rfl nofun
  | finishes h =>
    refine H.replace h _ ⟨rfl, rfl, rfl, rfl⟩ (.refl _) rfl ?_ nofun
    have hpos : 0 < s.pool.running := by
      have running := H.running
      rw [h, Worker.count_split] at running
      change _ = _ + 1 at running
      omega
    exact Nat.sub_add_cancel hpos
  | leaves h hleave =>
    refine H.replace h _ ⟨rfl, rfl, rfl, rfl⟩ (.refl _) rfl rfl fun _ => .inr ?_
    rw [Pool.mayLeave, Bool.and_eq_true, List.isEmpty_iff] at hleave
    exact hleave
  | told => exact { H with }
  | tells h => exact H.replace h _ ⟨rfl, rfl, rfl, rfl⟩ (.refl _) rfl rfl .inl

theorem counted_of_reachable (h : Reachable name size m s) : s.Counted name size := by
  induction h with
  | refl => exact counted_start
  | tail _ h ih =>
    cases h with
    | move h => exact ih.step h
    | elsewhere => exact { ih with }

/-! ## Exact counters -/

/-- All publications that are due or have begun. -/
def tellings (s : Traffic α) : List Telling := s.telling.toList ++ s.workers.filterMap (·.telling)

/-- Nobody is in the middle of a move. -/
structure Settled (s : Traffic α) : Prop where
  sending : s.sending = none
  tellings : s.tellings = []
  workers : ∀ w ∈ s.workers, w.place.isResting = true

/-- The counters tell what there is, up to the jobs on their way. -/
structure Exact (size : Nat) (s : Traffic α) : Prop where
  /-- Workers take the jobs in the order in which they were accepted. -/
  order : s.taken ++ s.pool.queue = s.accepted
  /-- A job that was taken is with one worker or has finished. -/
  once : (s.finished ++ Worker.held s.workers).Perm s.taken
  /-- A job waits from when it is counted to when its worker has lowered the number. -/
  waiting : s.pool.waiting = s.sending.toList.length +
    (s.accepted.drop s.taken.length).length + Worker.count Place.isReceived s.workers
  /-- A job runs from when its worker has raised the number to when it has lowered it. -/
  running : s.pool.running + Worker.count Place.isReceived s.workers +
      Worker.count Place.isLowered s.workers =
    (Worker.held s.workers).length + Worker.count Place.isEnded s.workers
  bound : s.pool.running ≤ max size 1
  free : s.pool.free = max size 1 - s.pool.running
  /-- Whoever lowers the number of waiting jobs finds it raised. -/
  lowers : (s.sending ≠ none ∨ ∃ w ∈ s.workers, w.place.isReceived = true) →
    s.pool.lower.waiting + 1 = s.pool.waiting
  /-- Whoever lowers the number of running jobs finds it raised. -/
  finishes : (∃ w ∈ s.workers, w.place.isEnded = true) →
    s.pool.finish.running + 1 = s.pool.running
  /-- A job that was counted is taken by the queue: there is somebody to receive it. -/
  sends : s.sending ≠ none → ∃ w ∈ s.workers, w.place.hasLeft = false
  /-- Between moves nothing is on its way. -/
  settled : s.Settled → s.pool.waiting = (s.accepted.drop s.taken.length).length ∧
    s.pool.running = (Worker.held s.workers).length

theorem Settled.count_eq_zero (H : s.Settled) {p : Place α → Bool}
    (h : ∀ place : Place α, place.isResting = true → p place = false) :
    Worker.count p s.workers = 0 := by
  refine List.countP_eq_zero.mpr fun w hw => ?_
  rw [h w.place (H.workers w hw)]
  exact Bool.false_ne_true

theorem Counted.exact (H : s.Counted name size) : s.Exact size := by
  have hdrop : s.accepted.drop s.taken.length = s.pool.queue := by
    rw [← H.order, List.drop_left]
  have waiting := H.waiting
  have running := H.running
  have hrunning := Worker.count_running s.workers
  have bound : s.pool.running ≤ max size 1 := by
    rw [running, ← H.workers]
    exact List.countP_le_length
  exact {
    order := H.order
    once := H.once
    waiting := by rw [hdrop, waiting]
    running := by rw [running, hrunning]
    bound := bound
    free := by rw [Pool.free, H.staff]
    lowers := by
      have hpos : (s.sending ≠ none ∨ ∃ w ∈ s.workers, w.place.isReceived = true) →
          0 < s.pool.waiting := by
        rintro (hsending | ⟨w, hw, hreceived⟩)
        · obtain ⟨job, hjob⟩ := Option.ne_none_iff_exists'.mp hsending
          rw [waiting, hjob, Option.toList_some, List.length_singleton]
          omega
        · have hcount : 0 < Worker.count Place.isReceived s.workers :=
            List.countP_pos_iff.mpr ⟨w, hw, hreceived⟩
          omega
      exact fun h => Nat.sub_add_cancel (hpos h)
    finishes := by
      rintro ⟨w, hw, hended⟩
      have hcount : 0 < Worker.count Place.isRunning s.workers := by
        refine List.countP_pos_iff.mpr ⟨w, hw, ?_⟩
        generalize w.place = place at hended ⊢
        cases place with
        | ended => rfl
        | idle | received | lowered | busy | left => cases hended
      exact Nat.sub_add_cancel (running ▸ hcount)
    sends := H.exists_present
    settled := by
      intro h
      have hreceived := h.count_eq_zero fun _ => Place.isReceived_of_isResting
      have hlowered := h.count_eq_zero fun _ => Place.isLowered_of_isResting
      have hended := h.count_eq_zero fun _ => Place.isEnded_of_isResting
      have hsending := h.sending
      refine ⟨?_, by omega⟩
      rw [hdrop, waiting, hsending, hreceived, Option.toList_none, List.length_nil, Nat.zero_add,
        Nat.add_zero] }

end Traffic

end Logbook.Work
