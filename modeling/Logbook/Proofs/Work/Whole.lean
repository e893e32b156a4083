import Logbook.Proofs.Work.Calm

/-! Moves without a pause. Where whoever begins a move ends it before anybody else goes on, each run
is calm; so is each run of an executor, whose moves are whole ones.

A publication that is overtaken sets what it read before the other one did, and nobody corrects that
until the next change; and pools of one name set the same gauges (`gauges_stale`). -/

namespace Logbook.Work

/-! ## Publications -/

namespace Board

def setAll (turn : Nat) (gauges : List (Metrics.Key × Nat)) (b : Board) : Board :=
  gauges.foldl (fun b gauge => b.set turn gauge) b

/-- What a whole publication leaves. -/
def publish {α : Type} (p : Pool α) (b : Board) : Board :=
  { b with begun := b.begun + 1 }.setAll (b.begun + 1) (Metrics.loadGauges p.name p.load)

/-- A whole publication measures the load at once. -/
theorem metrics_publish {α : Type} (p : Pool α) (b : Board) :
    (b.publish p).metrics = b.metrics.recordLoad p.name p.load := rfl

theorem not_overtaken_set {turn : Nat} {b : Board} (h : ∀ entry ∈ b.written, entry.1 ≤ turn)
    (gauge : Metrics.Key × Nat) : ¬b.Overtaken (b.set turn gauge) := by
  rintro ⟨other, later, key, hwritten, hlater, hlt⟩
  have hentry : [(turn, gauge.1)] = [(other, key)] := List.append_cancel_left hwritten
  cases hentry
  exact absurd (h _ hlater) (Nat.not_le.mpr hlt)

end Board

namespace Telling

variable {α : Type}

/-- The next part of somebody's publication, if there is one and it was not overtaken. -/
def Next (p : Pool α) (x y : Board × Option Telling) : Prop :=
  (∃ told, x.2 = some told ∧ told.Part p x.1 y.1 y.2) ∧ ¬x.1.Overtaken y.1

theorem run_sets (p : Pool α) {turn : Nat} (todo : List (Metrics.Key × Nat)) {b : Board}
    (h : ∀ entry ∈ b.written, entry.1 ≤ turn) :
    Relation.ReflTransGen (Next p) (b, some (.sets turn todo)) (b.setAll turn todo, none) := by
  induction todo generalizing b with
  | nil => exact .single ⟨⟨_, rfl, .ends⟩, Board.not_overtaken rfl⟩
  | cons gauge todo ih =>
    refine .head ⟨⟨_, rfl, .sets⟩, Board.not_overtaken_set h gauge⟩ (ih fun entry hentry => ?_)
    rcases List.mem_append.mp hentry with hentry | hentry
    · exact h entry hentry
    · rw [List.mem_singleton.mp hentry]

theorem run_half (p : Pool α) {turn : Nat} {b : Board} (h : ∀ entry ∈ b.written, entry.1 ≤ turn) :
    Relation.ReflTransGen (Next p) (b, some (.half turn p.running))
      (b.setAll turn (Metrics.loadGauges p.name p.load), none) := by
  have hreads : Next p (b, some (.half turn p.running))
      (b, some (.sets turn (Metrics.loadGauges p.name p.load))) :=
    ⟨⟨_, rfl, .reads⟩, Board.not_overtaken rfl⟩
  exact .head hreads (run_sets p _ h)

/-- The parts of a publication, if nobody comes in between. -/
theorem run_whole (p : Pool α) {b : Board} (h : ∀ entry ∈ b.written, entry.1 ≤ b.begun) :
    Relation.ReflTransGen (Next p) (b, some .due) (b.publish p, none) := by
  have hbegins : Next p (b, some .due)
      ({ b with begun := b.begun + 1 }, some (.half (b.begun + 1) p.running)) :=
    ⟨⟨_, rfl, .begins⟩, Board.not_overtaken rfl⟩
  exact .head hbegins (run_half p fun entry hentry => Nat.le_succ_of_le (h entry hentry))

end Telling

namespace Traffic

variable {α : Type} {name : String} {size : Nat} {m : Metrics} {s t : Traffic α}
variable {before after : List (Worker α)} {w : Worker α}

/-! ## Whole moves -/

/-- A part of a move in which no publication turns out to be overtaken. -/
def InTurn (s t : Traffic α) : Prop := s.Move t ∧ ¬s.board.Overtaken t.board

/-- A worker tells the load without a pause. -/
theorem run_tells {place : Place α} {told : Option Telling} {y : Board × Option Telling}
    (h : s.workers = before ++ ⟨place, told⟩ :: after)
    (hrun : Relation.ReflTransGen (Telling.Next s.pool) (s.board, told) y) :
    Relation.ReflTransGen InTurn s
      { s with board := y.1, workers := before ++ ⟨place, y.2⟩ :: after } := by
  let state (x : Board × Option Telling) : Traffic α :=
    { s with board := x.1, workers := before ++ ⟨place, x.2⟩ :: after }
  have hs : state (s.board, told) = s := by
    change { s with workers := before ++ ⟨place, told⟩ :: after } = s
    rw [← h]
  rw [← hs]
  refine hrun.lift state ?_
  rintro x y ⟨⟨told, hx, hpart⟩, hcalm⟩
  have hmove : Move (state x) (state y) := .tells (by rw [← hx]) hpart
  exact ⟨hmove, hcalm⟩

/-- The one who submits tells the load without a pause. -/
theorem run_told {y : Board × Option Telling}
    (h : Relation.ReflTransGen (Telling.Next s.pool) (s.board, s.telling) y) :
    Relation.ReflTransGen InTurn s { s with board := y.1, telling := y.2 } := by
  let state (x : Board × Option Telling) : Traffic α := { s with board := x.1, telling := x.2 }
  refine h.lift state ?_
  rintro x y ⟨⟨told, hx, hpart⟩, hcalm⟩
  have hmove : Move (state x) (state y) := .told hx hpart
  exact ⟨hmove, hcalm⟩

/-- A submission without a pause. -/
theorem run_submit (H : s.Ordered) {p : Pool α} (job : α) (h : s.pool.submit job = .ok p)
    (hsending : s.sending = none) (htelling : s.telling = none) :
    Relation.ReflTransGen InTurn s { s with
      pool := p
      board := s.board.publish p
      sending := none
      telling := none
      accepted := s.accepted ++ [job] } := by
  obtain ⟨hopen, rfl⟩ := Pool.submit_ok h
  have hraises : InTurn s { s with pool := s.pool.raise, sending := some job } :=
    ⟨.raises job hopen hsending htelling, Board.not_overtaken rfl⟩
  have hsends : InTurn { s with pool := s.pool.raise, sending := some job } { s with
      pool := s.pool.raise.send job
      sending := none
      telling := some .due
      accepted := s.accepted ++ [job] } := ⟨.sends rfl, Board.not_overtaken rfl⟩
  refine .head hraises (.head hsends ?_)
  exact run_told (s := { s with
    pool := s.pool.raise.send job
    sending := none
    telling := some .due
    accepted := s.accepted ++ [job] }) (Telling.run_whole _ H.written)

/-- A worker takes a job without a pause. -/
theorem run_take (H : s.Ordered) {job : α} {p : Pool α}
    (h : s.workers = before ++ ⟨.idle, none⟩ :: after) (htake : s.pool.take? = some (job, p)) :
    Relation.ReflTransGen InTurn s { s with
      pool := p
      board := s.board.publish p
      workers := before ++ ⟨.busy job, none⟩ :: after
      taken := s.taken ++ [job] } := by
  obtain ⟨r, hreceive, rfl⟩ := Pool.take?_eq_some htake
  have hreceives : InTurn s { s with
      pool := r
      workers := before ++ ⟨.received job, none⟩ :: after
      taken := s.taken ++ [job] } := ⟨.receives h hreceive, Board.not_overtaken rfl⟩
  have hlowers : InTurn { s with
      pool := r
      workers := before ++ ⟨.received job, none⟩ :: after
      taken := s.taken ++ [job] } { s with
      pool := r.lower
      workers := before ++ ⟨.lowered job, none⟩ :: after
      taken := s.taken ++ [job] } := ⟨.lowers rfl, Board.not_overtaken rfl⟩
  have hengages : InTurn { s with
      pool := r.lower
      workers := before ++ ⟨.lowered job, none⟩ :: after
      taken := s.taken ++ [job] } { s with
      pool := r.lower.engage
      workers := before ++ ⟨.busy job, some .due⟩ :: after
      taken := s.taken ++ [job] } := ⟨.engages rfl, Board.not_overtaken rfl⟩
  refine .head hreceives (.head hlowers (.head hengages ?_))
  exact run_tells (s := { s with
    pool := r.lower.engage
    workers := before ++ ⟨.busy job, some .due⟩ :: after
    taken := s.taken ++ [job] }) rfl (Telling.run_whole _ H.written)

/-- A job ends, and its worker is free again without a pause. -/
theorem run_finish (H : s.Ordered) {job : α}
    (h : s.workers = before ++ ⟨.busy job, none⟩ :: after) :
    Relation.ReflTransGen InTurn s { s with
      pool := s.pool.finish
      board := s.board.publish s.pool.finish
      workers := before ++ ⟨.idle, none⟩ :: after
      finished := s.finished ++ [job] } := by
  have hends : InTurn s { s with
      workers := before ++ ⟨.ended job, none⟩ :: after
      finished := s.finished ++ [job] } := ⟨.ends h, Board.not_overtaken rfl⟩
  have hfinishes : InTurn { s with
      workers := before ++ ⟨.ended job, none⟩ :: after
      finished := s.finished ++ [job] } { s with
      pool := s.pool.finish
      workers := before ++ ⟨.idle, some .due⟩ :: after
      finished := s.finished ++ [job] } := ⟨.finishes rfl, Board.not_overtaken rfl⟩
  refine .head hends (.head hfinishes ?_)
  exact run_tells (s := { s with
    pool := s.pool.finish
    workers := before ++ ⟨.idle, some .due⟩ :: after
    finished := s.finished ++ [job] }) rfl (Telling.run_whole _ H.written)

theorem calm_of_inTurn (h : Relation.ReflTransGen InTurn s t) : Relation.ReflTransGen Calm s t :=
  Relation.ReflTransGen.mono (fun _ _ h => Calm.move h.1 h.2) s t h

theorem moves_of_inTurn (h : Relation.ReflTransGen InTurn s t) : Relation.ReflTransGen Move s t :=
  Relation.ReflTransGen.mono (fun _ _ h => h.1) s t h

/-! ## Executors -/

/-- So many workers without a job, those with these jobs, and so many who have left. -/
def staff (idle : Nat) (jobs : List α) (left : Nat) : List (Worker α) :=
  List.replicate idle ⟨.idle, none⟩ ++ jobs.map (fun job => ⟨.busy job, none⟩) ++
    List.replicate left ⟨.left, none⟩

theorem staff_idle (idle : Nat) (jobs : List α) (left : Nat) :
    staff (idle + 1) jobs left = ⟨.idle, none⟩ :: staff idle jobs left := rfl

theorem staff_busy (idle : Nat) (before after : List α) (job : α) (left : Nat) :
    (staff idle (before ++ job :: after) left).Perm
      (⟨.busy job, none⟩ :: staff idle (before ++ after) left) := by
  simp only [staff, List.map_append, List.map_cons, List.append_assoc, List.cons_append]
  rw [← List.append_assoc, ← List.append_assoc]
  exact List.perm_middle

theorem staff_left (idle : Nat) (jobs : List α) (left : Nat) :
    (staff idle jobs (left + 1)).Perm (⟨.left, none⟩ :: staff idle jobs left) :=
  List.perm_middle

theorem resting_of_mem_staff {idle left : Nat} {jobs : List α} {w : Worker α}
    (h : w ∈ staff idle jobs left) : w.telling = none ∧ w.place.isResting = true := by
  rw [staff, List.mem_append, List.mem_append] at h
  rcases h with (h | h) | h
  · obtain rfl := List.eq_of_mem_replicate h
    exact ⟨rfl, rfl⟩
  · obtain ⟨job, -, rfl⟩ := List.mem_map.mp h
    exact ⟨rfl, rfl⟩
  · obtain rfl := List.eq_of_mem_replicate h
    exact ⟨rfl, rfl⟩

/-- A pool on threads that stands where an executor stands between two moves. -/
structure Follows (t : Traffic Job) (e : Executor) : Prop where
  pool : t.pool = e.pool
  sending : t.sending = none
  telling : t.telling = none
  workers : t.workers.Perm
    (staff (e.arriving.length + e.crew.line.length) (e.busy.map Busy.job) e.pool.left)
  accepted : t.accepted = e.accepted
  taken : t.taken = e.started
  finished : t.finished = e.finished.map Finished.job

variable {e e' : Executor} {u : Traffic Job}

theorem Follows.settled (H : u.Follows e) : u.Settled where
  sending := H.sending
  tellings := by
    rw [tellings, H.telling, Option.toList_none, List.nil_append, List.filterMap_eq_nil_iff]
    exact fun w hw => (resting_of_mem_staff (H.workers.mem_iff.mp hw)).1
  workers w hw := (resting_of_mem_staff (H.workers.mem_iff.mp hw)).2

/-- One worker of the staff, and the others. -/
theorem Follows.exists_worker (H : u.Follows e) {w : Worker Job} {rest : List (Worker Job)}
    (hstaff : (staff (e.arriving.length + e.crew.line.length) (e.busy.map Busy.job)
      e.pool.left).Perm (w :: rest)) :
    ∃ before after, u.workers = before ++ w :: after ∧ (before ++ after).Perm rest := by
  have hperm := H.workers.trans hstaff
  obtain ⟨before, after, h⟩ := List.append_of_mem (hperm.mem_iff.mpr (.head _))
  rw [h] at hperm
  exact ⟨before, after, h, (List.perm_middle.symm.trans hperm).cons_inv⟩

theorem follows_start : (start name size m).Follows (.start name size) where
  pool := rfl
  sending := rfl
  telling := rfl
  workers := by
    refine .of_eq ?_
    change _ = staff ((List.range (max size 1)).length + 0) [] 0
    rw [List.length_range, staff, List.map_nil, List.replicate_zero, List.append_nil,
      List.append_nil]
    rfl
  accepted := rfl
  taken := rfl
  finished := rfl

/-- A worker of an executor without a job makes its move without a pause. -/
theorem Follows.serve (H : u.Follows e) (hordered : u.Ordered) (h : e.Serve e') :
    ∃ v, Relation.ReflTransGen Calm u v ∧ v.Follows e' := by
  cases h with
  | @join before after worker h =>
    refine ⟨u, .refl, { H with workers := H.workers.trans (.of_eq ?_) }⟩
    have hidle : (before ++ after).length + (e.crew.line ++ [worker]).length =
        e.arriving.length + e.crew.line.length := by
      rw [h]
      simp only [List.length_append, List.length_cons, List.length_nil]
      omega
    exact congrArg (staff · _ _) hidle.symm
  | @take worker job crew h =>
    obtain ⟨line, queue, hline, hqueue, rfl⟩ := Crew.turn_takes h
    obtain ⟨before, after, hworkers, hrest⟩ := H.exists_worker (.of_eq (by
      rw [hline, List.length_cons, ← Nat.add_assoc, staff_idle]))
    have htake : u.pool.take? = some (job, { e.pool with
        queue := queue
        waiting := e.pool.waiting - 1
        running := e.pool.running + 1 }) := by
      rw [H.pool, Pool.take?, Executor.pool, hqueue]
    refine ⟨_, calm_of_inTurn (run_take hordered hworkers htake), { H with
      pool := rfl
      workers := ?_
      taken := congrArg (· ++ [job]) H.taken }⟩
    · change (before ++ ⟨.busy job, none⟩ :: after).Perm
        (staff (e.arriving.length + line.length) ((e.busy ++ [_]).map Busy.job) e.pool.left)
      have hbusy := staff_busy (e.arriving.length + line.length) (e.busy.map Busy.job) [] job
        e.pool.left
      rw [List.append_nil] at hbusy
      rw [List.map_append]
      exact List.perm_middle.trans ((hrest.cons _).trans hbusy.symm)
  | leave h =>
    obtain ⟨line, hline, hqueue, hclosed, rfl⟩ := Crew.turn_leaves h
    obtain ⟨before, after, hworkers, hrest⟩ := H.exists_worker (.of_eq (by
      rw [hline, List.length_cons, ← Nat.add_assoc, staff_idle]))
    have hleave : u.pool.mayLeave = true := by
      rw [H.pool, Pool.mayLeave, Executor.pool, hqueue, hclosed]
      rfl
    refine ⟨_, .single (.move (.leaves hworkers hleave) (Board.not_overtaken rfl)), { H with
      pool := congrArg Pool.leave H.pool
      workers := List.perm_middle.trans ((hrest.cons _).trans (staff_left ..).symm) }⟩

theorem Follows.setRecord (H : u.Follows e) {before after : List Busy} {b : Busy}
    {record : Option Record} (h : e.busy = before ++ b :: after) :
    u.Follows { e with busy := before ++ { b with record := record } :: after } := by
  have hjobs : e.busy.map Busy.job =
      (before ++ { b with record := record } :: after).map Busy.job := by
    rw [h, List.map_append, List.map_append]
    rfl
  exact { H with workers := H.workers.trans (.of_eq (congrArg (staff _ · _) hjobs)) }

/-- A job begins its record, or ends and frees its worker without a pause. -/
theorem Follows.perform (H : u.Follows e) (hordered : u.Ordered) (h : e.Perform e') :
    ∃ v, Relation.ReflTransGen Calm u v ∧ v.Follows e' := by
  cases h with
  | begin id o h => exact ⟨u, .refl, H.setRecord h⟩
  | @finish before' after' worker job r ending o h =>
    have hstaff : (staff (e.arriving.length + e.crew.line.length) (e.busy.map Busy.job)
        e.pool.left).Perm (⟨.busy job, none⟩ :: staff (e.arriving.length + e.crew.line.length)
          ((before' ++ after').map Busy.job) e.pool.left) := by
      rw [h, List.map_append, List.map_append, List.map_cons]
      exact staff_busy ..
    obtain ⟨before, after, hworkers, hrest⟩ := H.exists_worker hstaff
    refine ⟨_, calm_of_inTurn (run_finish hordered hworkers), { H with
      pool := congrArg Pool.finish H.pool
      workers := ?_
      finished := ?_ }⟩
    · change (before ++ ⟨.idle, none⟩ :: after).Perm
        (staff ((e.arriving ++ [worker]).length + e.crew.line.length) _ _)
      rw [List.length_append, List.length_singleton, Nat.add_right_comm, staff_idle]
      exact List.perm_middle.trans (hrest.cons _)
    · change u.finished ++ [job] = _
      rw [H.finished, List.map_append]
      rfl

theorem Follows.other (H : u.Follows e) (hordered : u.Ordered) (h : e.Other e') :
    ∃ v, Relation.ReflTransGen Calm u v ∧ v.Follows e' := by
  cases h with
  | write w h => exact ⟨u, .refl, H.setRecord h⟩
  | submit link action h =>
    obtain ⟨hopen, rfl⟩ := Executor.submit_ok h
    have hsubmit : u.pool.submit ⟨e.accepted.length, link, action⟩ = .ok { e.pool with
        queue := e.pool.queue ++ [⟨e.accepted.length, link, action⟩]
        waiting := e.pool.waiting + 1 } := by
      rw [H.pool, Pool.submit, if_neg (Bool.eq_false_iff.mp hopen)]
    exact ⟨_, calm_of_inTurn (run_submit hordered _ hsubmit H.sending H.telling), { H with
      pool := rfl
      sending := rfl
      telling := rfl
      accepted := congrArg (· ++ [_]) H.accepted }⟩
  | shutDown =>
    exact ⟨_, .single (.move (.closes H.sending H.telling) (Board.not_overtaken rfl)),
      { H with pool := congrArg Pool.close H.pool }⟩
  | await | look | pass => exact ⟨u, .refl, { H with }⟩

/-- **Whole moves are calm.** Each run of an executor, whose moves are whole ones, is a calm run of
its parts. -/
theorem exists_follows {e : Executor} (h : e.Reachable name size) (m : Metrics) :
    ∃ u, Relation.ReflTransGen Calm (start name size m) u ∧ u.Follows e := by
  obtain ⟨n, H⟩ := h
  refine H.keeps (P := fun e => ∃ u, Relation.ReflTransGen Calm (start name size m) u ∧
    u.Follows e) ?_ ?_ ⟨_, .refl, follows_start⟩
  · rintro e e' ⟨u, hu, H⟩ (h | h)
    · obtain ⟨v, hv, H'⟩ := H.serve (ordered_of_reachable (reachable_of_calm hu)) h
      exact ⟨v, hu.trans hv, H'⟩
    · obtain ⟨v, hv, H'⟩ := H.perform (ordered_of_reachable (reachable_of_calm hu)) h
      exact ⟨v, hu.trans hv, H'⟩
  · rintro e e' ⟨u, hu, H⟩ h
    obtain ⟨v, hv, H'⟩ := H.other (ordered_of_reachable (reachable_of_calm hu)) h
    exact ⟨v, hu.trans hv, H'⟩

/-! ## Counters and gauges -/

/-- The gauges of the pool show its counters. -/
def ShowsLoad (name : String) (size : Nat) (s : Traffic α) : Prop :=
  s.board.metrics.Shows name ⟨s.pool.running, max size 1 - s.pool.running, s.pool.waiting⟩

/-- **The counters and gauges of an executor.** However the parts of moves on several threads mix,
and whatever else is measured, the counters are exact up to the jobs on their way, none is lowered
below zero, and no more jobs run than there are workers. If nobody else sets the gauges of this name
and no publication is overtaken by one that began later, since the start or since any one began, the
gauges show the same numbers whenever nobody is in the middle of a move. The gauges of an executor
whose moves are whole ones do so behind each of them. -/
theorem exact_of_reachable (name : String) (size : Nat) (m : Metrics) :
    (∀ (α : Type) (s : Traffic α), Reachable name size m s → s.Exact size ∧
      (Relation.ReflTransGen Calm (start name size m) s → s.Settled → s.ShowsLoad name size) ∧
      (.half s.board.begun s.pool.running ∈ s.tellings →
        ∀ t, Relation.ReflTransGen Calm s t → t.Settled → t.ShowsLoad name size)) ∧
    ∀ e : Executor, e.Reachable name size → ∃ u : Traffic Job,
      Relation.ReflTransGen Calm (start name size m) u ∧ u.Settled ∧ u.Follows e ∧
        u.ShowsLoad name size := by
  refine ⟨fun α s h => ?_, fun e h => ?_⟩
  · refine ⟨(counted_of_reachable h).exact, fun hcalm => (steady_start.run hcalm).shows,
      fun hhalf t hcalm => ((steady_of_half h hhalf).run hcalm).shows⟩
  · obtain ⟨u, hu, H⟩ := exists_follows h m
    exact ⟨u, hu, H.settled, H, (steady_start.run hu).shows H.settled⟩

theorem reachable_of_moves (h : Relation.ReflTransGen Move (start name size m) s) :
    Reachable name size m s :=
  Relation.ReflTransGen.mono (fun _ _ h => Step.move h) _ s h

theorem Reachable.measured (h : Reachable name size m s) (f : Metrics → Metrics) :
    Reachable name size m { s with board := { s.board with metrics := f s.board.metrics } } :=
  h.tail (.elsewhere _)

/-- One worker. It has one of two jobs, and others measure in between; it has received a job and not
yet lowered the number of those that wait; it tells of the end of its job after another pool of the
same name has set the gauges; and an executor has accepted a job. -/
theorem exact_oneWorker :
    (∃ s : Traffic Nat, Reachable "jobs" 0 .empty s ∧ s.Settled ∧
      s.board.metrics.Shows "jobs" ⟨1, 0, 1⟩) ∧
    (∃ s : Traffic Nat, Reachable "jobs" 0 .empty s ∧ s.pool.waiting = 1 ∧ s.pool.queue = [] ∧
      s.pool.lower.waiting = 0) ∧
    (∃ s t : Traffic Nat, Reachable "jobs" 0 .empty s ∧ s.board.metrics.Shows "jobs" ⟨0, 4, 0⟩ ∧
      Relation.ReflTransGen Calm s t ∧ t.Settled ∧ t.board.metrics.Shows "jobs" ⟨0, 1, 0⟩) ∧
    ∃ u : Traffic Job, u.pool.queue = [⟨0, ⟨"", ""⟩, "work"⟩] ∧
      u.board.metrics.Shows "jobs" ⟨0, 1, 1⟩ := by
  obtain ⟨hexact, hexecutor⟩ := exact_of_reachable "jobs" 0 .empty
  have hworkers : (start "jobs" 0 .empty : Traffic Nat).workers = [] ++ ⟨.idle, none⟩ :: [] := rfl
  have hstart : (start "jobs" 0 .empty : Traffic Nat).Ordered := ordered_of_reachable .refl
  have hsubmitted := calm_of_inTurn (run_submit hstart 7 rfl rfl rfl)
  have hordered := ordered_of_reachable (reachable_of_calm hsubmitted)
  refine ⟨?_, ?_, ?_, ?_⟩
  · have h := hsubmitted.trans (calm_of_inTurn (run_submit hordered 8 rfl rfl rfl))
    have h := h.tail (.elsewhere (Metrics.sameGauges_recordEmitted "jobs" .ok _))
    have h := h.tail (.elsewhere (Metrics.sameGauges_recordLoad (by decide : "jobs" ≠ "mail")
      ⟨0, 4, 0⟩ _))
    have hordered := ordered_of_reachable (reachable_of_calm h)
    have h := h.trans (calm_of_inTurn (run_take hordered hworkers rfl))
    have h := h.tail (.elsewhere (Metrics.sameGauges_recordStage "jobs" 2 1 _))
    have hshows := (hexact Nat _ (reachable_of_calm h)).2.1 h
    have hbusy : ∀ w ∈ [(⟨.busy 7, none⟩ : Worker Nat)], w.place.isResting = true :=
      List.forall_mem_singleton.mpr rfl
    exact ⟨_, reachable_of_calm h, ⟨rfl, rfl, hbusy⟩, hshows ⟨rfl, rfl, hbusy⟩⟩
  · have h := hsubmitted.tail (.move (.receives hworkers rfl) (Board.not_overtaken rfl))
    have hreceived := (hexact Nat _ (reachable_of_calm h)).1.lowers
      (.inr ⟨_, .head _, rfl⟩)
    exact ⟨_, reachable_of_calm h, rfl, rfl, Nat.succ.inj hreceived⟩
  · have h := hsubmitted.trans (calm_of_inTurn (run_take hordered hworkers rfl))
    have h := (reachable_of_calm h).measured (Metrics.recordLoad "jobs" ⟨0, 4, 0⟩)
    have h := h.tail (.move (.ends (List.nil_append _).symm))
    have h := h.tail (.move (.finishes (List.nil_append _).symm))
    have h := h.tail (.move (.tells (List.nil_append _).symm .begins))
    have hlast := (hexact Nat _ h).2.2 (.head _)
    have hidle : ∀ w ∈ [(⟨.idle, none⟩ : Worker Nat)], w.place.isResting = true :=
      List.forall_mem_singleton.mpr rfl
    have hcalm (s : Traffic Nat) (H : s.Ordered)
        (h : s.workers = [] ++ ⟨.idle, some (.half s.board.begun s.pool.running)⟩ :: []) :=
      calm_of_inTurn (run_tells h (Telling.run_half s.pool H.written))
    have hended := hcalm _ (ordered_of_reachable h) rfl
    exact ⟨_, _, h, Metrics.shows_recordLoad .., hended, ⟨rfl, rfl, hidle⟩,
      hlast _ hended ⟨rfl, rfl, hidle⟩⟩
  · have submitted : Executor.Run 0 (.start "jobs" 0) _ :=
      .other .refl (.submit ⟨"", ""⟩ "work" rfl)
    obtain ⟨u, -, -, H, hshows⟩ := hexecutor _ ⟨0, submitted⟩
    rw [ShowsLoad, H.pool] at hshows
    exact ⟨u, congrArg Pool.queue H.pool, hshows⟩

/-- Gauges that do not show the counters, with nobody in the middle of a move. The one who submits
has read one running job before it ended, and sets that after the worker has told of the end. And
where two pools have one name, the gauges show the one that told its load last. -/
theorem gauges_stale :
    (∃ s : Traffic Nat, Relation.ReflTransGen Move (start "jobs" 1 .empty) s ∧ s.Settled ∧
      s.pool.load = ⟨0, 1, 0⟩ ∧ s.board.metrics.Shows "jobs" ⟨1, 0, 0⟩ ∧
        ¬s.ShowsLoad "jobs" 1) ∧
    ∃ s : Traffic Nat, Reachable "jobs" 1 .empty s ∧ s.Settled ∧
      s.pool.load = ⟨1, 0, 0⟩ ∧
        s.board.metrics.Shows "jobs" (Pool.ofSize "jobs" 2 : Pool Nat).load ∧
          ¬s.ShowsLoad "jobs" 1 := by
  have hworkers : (start "jobs" 1 .empty : Traffic Nat).workers = [] ++ ⟨.idle, none⟩ :: [] := rfl
  have hstart : (start "jobs" 1 .empty : Traffic Nat).Ordered := ordered_of_reachable .refl
  constructor
  · have hsent : Relation.ReflTransGen Move (start "jobs" 1 .empty : Traffic Nat) _ :=
      .tail (.single (.raises 7 rfl rfl rfl)) (.sends rfl)
    have hordered := ordered_of_reachable (reachable_of_moves hsent)
    have h := hsent.trans (moves_of_inTurn (run_take hordered hworkers rfl))
    have h := (h.tail (.told rfl .begins)).tail (.told rfl .reads)
    have hordered := ordered_of_reachable (reachable_of_moves h)
    have h := h.trans (moves_of_inTurn (run_finish hordered (List.nil_append _).symm))
    have h := ((h.tail (.told rfl .sets)).tail (.told rfl .sets)).tail (.told rfl .sets)
    have h := h.tail (.told rfl .ends)
    have hshown := Metrics.shows_recordLoad "jobs" ⟨1, 0, 0⟩
      (((Metrics.empty.recordLoad "jobs" ⟨0, 1, 0⟩).recordLoad "jobs" ⟨1, 0, 0⟩).recordLoad "jobs"
        ⟨0, 1, 0⟩)
    refine ⟨_, h, ⟨rfl, rfl, List.forall_mem_singleton.mpr rfl⟩, rfl, hshown, fun hshows => ?_⟩
    have hrunning := Option.some.inj (hshows.running.symm.trans hshown.running)
    exact absurd hrunning (by decide)
  · have hsubmitted := calm_of_inTurn (run_submit hstart 7 rfl rfl rfl)
    have hordered := ordered_of_reachable (reachable_of_calm hsubmitted)
    have h := hsubmitted.trans (calm_of_inTurn (run_take hordered hworkers rfl))
    have h := (reachable_of_calm h).measured
      (Metrics.recordLoad "jobs" (Pool.ofSize "jobs" 2 : Pool Nat).load)
    have hshown := Metrics.shows_recordLoad "jobs" (Pool.ofSize "jobs" 2 : Pool Nat).load
      (((Metrics.empty.recordLoad "jobs" ⟨0, 1, 0⟩).recordLoad "jobs" ⟨0, 1, 1⟩).recordLoad "jobs"
        ⟨1, 0, 0⟩)
    refine ⟨_, h, ⟨rfl, rfl, List.forall_mem_singleton.mpr rfl⟩, rfl, hshown, fun hshows => ?_⟩
    have hrunning := Option.some.inj (hshows.running.symm.trans hshown.running)
    exact absurd hrunning (by decide)

end Traffic

end Logbook.Work
