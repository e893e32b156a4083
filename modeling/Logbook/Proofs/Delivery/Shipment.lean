import Mathlib
import Logbook.Delivery.Shipper

/-! A shipper with its history. Lines are handed over and the shipper is stopped at any time, while
the worker makes its moves for a writer of any kind. Each line that was taken is in one place:
written, given up, in the hand of the worker, or in the queue (`Accounted`); each move of the worker
brings it nearer to its end (`Accounted.movesLeft_lt`). -/

namespace Logbook.Delivery

/-- What is asked of a shipper. -/
inductive Order where
  | ship (line : String)
  | stop
  deriving DecidableEq

namespace Order

def line? : Order → Option String
  | ship line => some line
  | stop => none

/-- The lines that were handed over before the shipper was stopped for the first time. -/
def beforeStop : List Order → List String
  | [] => []
  | ship line :: orders => line :: beforeStop orders
  | stop :: _ => []

def afterStop : List Order → List String
  | [] => []
  | ship _ :: orders => afterStop orders
  | stop :: orders => orders.filterMap line?

variable {orders : List Order}

theorem beforeStop_append_afterStop (orders : List Order) :
    beforeStop orders ++ afterStop orders = orders.filterMap line? := by
  induction orders with
  | nil => rfl
  | cons o orders ih =>
    cases o with
    | ship line => exact congrArg (line :: ·) ih
    | stop => rfl

theorem beforeStop_append (h : stop ∉ orders) (later : List Order) :
    beforeStop (orders ++ later) = orders.filterMap line? ++ beforeStop later := by
  induction orders with
  | nil => rfl
  | cons o orders ih =>
    cases o with
    | ship line => exact congrArg (line :: ·) (ih fun hmem => h (.tail _ hmem))
    | stop => exact absurd (.head _) h

theorem beforeStop_of_not_mem (h : stop ∉ orders) : beforeStop orders = orders.filterMap line? := by
  have happend := beforeStop_append h []
  rwa [List.append_nil, beforeStop, List.append_nil] at happend

/-- What comes after a stop changes nothing before it. -/
theorem beforeStop_append_of_mem (h : stop ∈ orders) (later : List Order) :
    beforeStop (orders ++ later) = beforeStop orders := by
  induction orders with
  | nil => cases h
  | cons o orders ih =>
    cases o with
    | ship line => exact congrArg (line :: ·) (ih ((List.mem_cons.mp h).resolve_left nofun))
    | stop => rfl

theorem afterStop_append (h : stop ∉ orders) (later : List Order) :
    afterStop (orders ++ later) = afterStop later := by
  induction orders with
  | nil => rfl
  | cons o orders ih =>
    cases o with
    | ship line => exact ih fun hmem => h (.tail _ hmem)
    | stop => exact absurd (.head _) h

theorem afterStop_of_not_mem (h : stop ∉ orders) : afterStop orders = [] := by
  have happend := afterStop_append h []
  rwa [List.append_nil] at happend

theorem afterStop_append_of_mem (h : stop ∈ orders) (later : List Order) :
    afterStop (orders ++ later) = afterStop orders ++ later.filterMap line? := by
  induction orders with
  | nil => cases h
  | cons o orders ih =>
    cases o with
    | ship line => exact ih ((List.mem_cons.mp h).resolve_left nofun)
    | stop => exact List.filterMap_append ..

end Order

/-- A line on its way: the bytes that the writer has accepted, and those that it has not. -/
structure Parcel where
  line : String
  sent : List UInt8
  rest : List UInt8
  frame_eq : Shipper.frame line = sent ++ rest

namespace Parcel

def pack (line : String) : Parcel := ⟨line, [], Shipper.frame line, rfl⟩

/-- The writer accepts some more bytes. -/
def advance (n : Nat) (p : Parcel) : Parcel where
  line := p.line
  sent := p.sent ++ p.rest.take n
  rest := p.rest.drop n
  frame_eq := by rw [p.frame_eq, List.append_assoc, List.take_append_drop]

/-- Whether the line has arrived as a whole, with its newline. -/
def isWhole (p : Parcel) : Bool := p.rest.isEmpty

theorem sent_of_isWhole {p : Parcel} (h : p.isWhole = true) : p.sent = Shipper.frame p.line := by
  rw [p.frame_eq, List.isEmpty_iff.mp h, List.append_nil]

/-- Parcels that have all arrived are the lines one after the other. -/
theorem flatMap_sent {done : List Parcel} (h : ∀ p ∈ done, p.isWhole = true) :
    done.flatMap sent = (done.map line).flatMap Shipper.frame := by
  rw [List.flatMap_map]
  rw [List.flatMap_def, List.flatMap_def]
  exact congrArg List.flatten (List.map_congr_left fun p hp => sent_of_isWhole (h p hp))

end Parcel

/-- The report on a line that was given up. -/
def Shipper.isGivingUp (d : Diagnostic) : Bool := d.message = "Failed to ship action log"

structure Shipment where
  shipper : Shipper
  /-- All that was asked of the shipper, in this order. -/
  orders : List Order
  /-- The lines that it has taken. -/
  taken : List String
  /-- The lines that it could not take, which went to the diagnostics. -/
  traced : List String
  /-- What the worker has reported. -/
  reports : List Diagnostic
  /-- What had been written when the writer was flushed. -/
  flushed : Option (List UInt8)

namespace Shipment

def start : Shipment := ⟨.new, [], [], [], [], none⟩

def ship (line : String) (s : Shipment) : Shipment :=
  let s : Shipment := { s with orders := s.orders ++ [.ship line] }
  match s.shipper.emit line with
  | some shipper => { s with shipper := shipper, taken := s.taken ++ [line] }
  | none => { s with traced := s.traced ++ [line] }

def stop (s : Shipment) : Shipment :=
  { s with shipper := s.shipper.halt.2, orders := s.orders ++ [.stop] }

/-- A move of the worker. -/
inductive Work (writer : Writer) (s : Shipment) : Shipment → Prop where
  | picks {shipper : Shipper} (h : s.shipper.pick? = some shipper) :
      Work writer s { s with shipper := shipper }
  | writes {rest : List UInt8} (h : s.shipper.worker = .writing rest) :
      Work writer s { s with shipper := (s.shipper.write writer).1,
                             reports := s.reports ++ (s.shipper.write writer).2 }
  | flushes (h : s.shipper.mayFlush = true) :
      Work writer s { s with shipper := (s.shipper.flush writer).1,
                             reports := s.reports ++ (s.shipper.flush writer).2,
                             flushed := some s.shipper.written }

/-- The worker moves whenever it can and likes, and is asked for something in between. -/
inductive Step (writer : Writer) (s : Shipment) : Shipment → Prop where
  | ships (line : String) : Step writer s (s.ship line)
  | stops : Step writer s s.stop
  | works {t : Shipment} (h : s.Work writer t) : Step writer s t

inductive Later (writer : Writer) (s : Shipment) : Shipment → Prop where
  | refl : Later writer s s
  | step {t u : Shipment} (H : Later writer s t) (h : t.Step writer u) : Later writer s u

/-- The worker goes on alone. -/
inductive Working (writer : Writer) : Shipment → Shipment → Prop where
  | refl (s : Shipment) : Working writer s s
  | step {s t u : Shipment} (h : s.Work writer t) (H : Working writer t u) : Working writer s u

def Reachable (writer : Writer) (s : Shipment) : Prop := start.Later writer s

variable {writer : Writer} {s t u : Shipment}

theorem Later.trans (H : s.Later writer t) (H' : t.Later writer u) : s.Later writer u := by
  induction H' with
  | refl => exact H
  | step _ h ih => exact ih.step h

theorem Working.later (H : Working writer s t) : s.Later writer t := by
  induction H with
  | refl => exact .refl
  | step h _ ih => exact .trans (.step .refl (.works h)) ih

/-- What each step keeps is kept. -/
theorem Later.keeps {Q : Shipment → Prop} (hstep : ∀ {s t}, Q s → s.Step writer t → Q t)
    (H : s.Later writer t) (hs : Q s) : Q t := by
  induction H with
  | refl => exact hs
  | step _ h ih => exact hstep ih h

/-! ## Moves of the worker -/

/-- The shipper after a call of its writer, and what is reported. -/
inductive Written (writer : Writer) (s : Shipper) (rest : List UInt8) :
    Shipper × List Diagnostic → Prop where
  | done {n : Nat} (hn : 0 < n) (hcall : writer.call (s.calls + 1) rest.length = .accepts n)
      (h : rest.drop n = []) :
      Written writer s rest
        ({ s with calls := s.calls + 1, written := s.written ++ rest.take n, worker := .idle }, [])
  | goesOn {n : Nat} (hn : 0 < n) (hcall : writer.call (s.calls + 1) rest.length = .accepts n)
      (h : rest.drop n ≠ []) :
      Written writer s rest
        ({ s with calls := s.calls + 1, written := s.written ++ rest.take n,
                  worker := .writing (rest.drop n) }, [])
  | givenUp (message : String)
      (hcall : writer.call (s.calls + 1) rest.length = .accepts 0 ∨
        writer.call (s.calls + 1) rest.length = .fails message) :
      Written writer s rest
        ({ s with calls := s.calls + 1, worker := .idle },
          [.warning "Failed to ship action log" [("error", message)]])
  | crashed (hcall : writer.call (s.calls + 1) rest.length = .panics) :
      Written writer s rest
        ({ s with calls := s.calls + 1, worker := .crashed, queue := [] }, [])

theorem written_write (writer : Writer) {s : Shipper} {rest : List UInt8}
    (h : s.worker = .writing rest) :
    Written writer s rest (s.write writer) := by
  obtain ⟨accepting, queue, worker, calls, written, awaited⟩ := s
  cases h
  simp only [Shipper.write]
  cases hcall : writer.call (calls + 1) rest.length with
  | accepts n =>
    cases n with
    | zero => exact .givenUp "write zero" (.inl hcall)
    | succ n =>
      by_cases hleft : rest.drop (n + 1) = []
      · simp only [hleft, List.isEmpty_nil, if_true]
        exact .done (Nat.succ_pos n) hcall hleft
      · simp only [List.isEmpty_iff, hleft, if_false]
        exact .goesOn (Nat.succ_pos n) hcall hleft
  | fails message => exact .givenUp message (.inr hcall)
  | panics => exact .crashed hcall

theorem of_pick? {s shipper : Shipper} (h : s.pick? = some shipper) :
    ∃ line queue, s.worker = .idle ∧ s.queue = line :: queue ∧
      shipper = { s with queue := queue, worker := .writing (Shipper.frame line) } := by
  obtain ⟨accepting, queue, worker, calls, written, awaited⟩ := s
  cases worker with
  | idle =>
    cases queue with
    | nil => cases h
    | cons line queue => cases h; exact ⟨line, queue, rfl, rfl, rfl⟩
  | writing | ended | crashed => cases h

theorem mayFlush_iff {s : Shipper} :
    s.mayFlush = true ↔ s.worker = .idle ∧ s.queue = [] ∧ s.accepting = false := by
  simp only [Shipper.mayFlush, Bool.and_eq_true, decide_eq_true_eq, List.isEmpty_iff,
    Bool.not_eq_true', and_assoc]

/-- The worker does not change what was asked, nor what became of it. -/
theorem Work.history_eq (h : s.Work writer t) :
    t.orders = s.orders ∧ t.taken = s.taken ∧ t.traced = s.traced ∧
      t.shipper.accepting = s.shipper.accepting := by
  cases h with
  | picks h =>
    obtain ⟨line, queue, -, -, rfl⟩ := of_pick? h
    exact ⟨rfl, rfl, rfl, rfl⟩
  | writes h =>
    have hmove := written_write writer h
    generalize s.shipper.write writer = result at hmove ⊢
    cases hmove <;> exact ⟨rfl, rfl, rfl, rfl⟩
  | flushes => exact ⟨rfl, rfl, rfl, rfl⟩

theorem Working.orders_eq (H : Working writer s t) : t.orders = s.orders := by
  induction H with
  | refl => rfl
  | step h _ ih => exact ih.trans h.history_eq.1

/-! ## Where the lines are -/

/-- Where the lines are that a shipper has taken. The worker is through with the first of them; the
next one may be in its hand. -/
inductive Accounted (s : Shipment) (done : List Parcel) : Prop where
  | idle (worker : s.shipper.worker = .idle)
      (taken : s.taken = done.map Parcel.line ++ s.shipper.queue)
      (written : s.shipper.written = done.flatMap Parcel.sent)
  | writing {p : Parcel} (worker : s.shipper.worker = .writing p.rest) (hrest : p.rest ≠ [])
      (taken : s.taken = done.map Parcel.line ++ p.line :: s.shipper.queue)
      (written : s.shipper.written = done.flatMap Parcel.sent ++ p.sent)
  | ended (worker : s.shipper.worker = .ended) (accepting : s.shipper.accepting = false)
      (hqueue : s.shipper.queue = [])
      (taken : s.taken = done.map Parcel.line)
      (written : s.shipper.written = done.flatMap Parcel.sent)
      (flushed : s.flushed = some s.shipper.written)
  /-- The writer panicked; the line in hand and those behind it are lost. -/
  | crashed {p : Parcel} {lost : List String} (worker : s.shipper.worker = .crashed)
      (taken : s.taken = done.map Parcel.line ++ p.line :: lost)
      (written : s.shipper.written = done.flatMap Parcel.sent ++ p.sent)

/-- The lines that did not arrive, of those that the worker is through with, are as many as it
reported. -/
def Told (s : Shipment) (done : List Parcel) : Prop :=
  s.reports.countP Shipper.isGivingUp = done.countP fun p => !p.isWhole

theorem Told.snoc {done : List Parcel} (h : s.Told done) (p : Parcel)
    {reports : List Diagnostic}
    (hp : reports.countP Shipper.isGivingUp = if p.isWhole then 0 else 1)
    (ht : t.reports = s.reports ++ reports) : t.Told (done ++ [p]) := by
  rw [Told, ht, List.countP_append, List.countP_append, h, hp, List.countP_singleton]
  cases p.isWhole <;> rfl

theorem Told.keep {done : List Parcel} (h : s.Told done) {reports : List Diagnostic}
    (hp : reports.countP Shipper.isGivingUp = 0) (ht : t.reports = s.reports ++ reports) :
    t.Told done := by
  rw [Told, ht, List.countP_append, h, hp, Nat.add_zero]

theorem accounted_start : start.Accounted [] := .idle rfl rfl rfl

theorem Accounted.work {done : List Parcel} (hs : s.Accounted done) (htold : s.Told done)
    (h : s.Work writer t) : ∃ done', t.Accounted done' ∧ t.Told done' := by
  cases h with
  | picks h =>
    obtain ⟨line, queue, worker, hqueue, rfl⟩ := of_pick? h
    cases hs with
    | idle _ taken written =>
      refine ⟨done, ?_, htold⟩
      refine .writing (p := .pack line) rfl ?_ (hqueue ▸ taken) ?_
      · exact List.append_ne_nil_of_right_ne_nil _ (List.cons_ne_nil _ _)
      · exact written.trans (List.append_nil _).symm
    | writing worker' | ended worker' | crashed worker' => cases worker.symm.trans worker'
  | writes worker =>
    cases hs with
    | @writing p worker' hrest taken written =>
      cases worker.symm.trans worker'
      have hline : ∀ n, s.taken = (done ++ [p.advance n]).map Parcel.line ++ s.shipper.queue := by
        intro n
        rw [List.map_append, List.append_assoc]
        exact taken
      have hsent : ∀ n, (done ++ [p.advance n]).flatMap Parcel.sent =
          s.shipper.written ++ p.rest.take n := by
        intro n
        rw [List.flatMap_append, List.flatMap_singleton, written, List.append_assoc]
        rfl
      have hmove := written_write writer worker
      generalize s.shipper.write writer = result at hmove ⊢
      cases hmove with
      | @done n hn hcall hdone =>
        refine ⟨done ++ [p.advance n], .idle rfl (hline n) (hsent n).symm, ?_⟩
        exact htold.snoc _ (by simp [Parcel.isWhole, Parcel.advance, hdone]) rfl
      | @goesOn n hn hcall hleft =>
        refine ⟨done, .writing (p := p.advance n) rfl hleft taken ?_, htold.keep rfl rfl⟩
        exact (congrArg (· ++ _) written).trans (List.append_assoc ..)
      | givenUp message hcall =>
        refine ⟨done ++ [p], .idle rfl ?_ ?_, htold.snoc p ?_ rfl⟩
        · rw [List.map_append, List.append_assoc]
          exact taken
        · rw [List.flatMap_append, List.flatMap_singleton]
          exact written
        · rw [Parcel.isWhole, if_neg (by rwa [List.isEmpty_iff])]
          rfl
      | crashed hcall => exact ⟨done, .crashed rfl taken written, htold.keep rfl rfl⟩
    | idle worker' | ended worker' | crashed worker' => cases worker.symm.trans worker'
  | flushes h =>
    obtain ⟨worker, hqueue, accepting⟩ := mayFlush_iff.mp h
    cases hs with
    | idle _ taken written =>
      rw [hqueue, List.append_nil] at taken
      refine ⟨done, .ended rfl accepting hqueue taken written rfl, htold.keep ?_ rfl⟩
      rw [Shipper.flush]
      cases writer.flush <;> rfl
    | writing worker' | ended worker' | crashed worker' => cases worker.symm.trans worker'

/-- What a shipper does with a line that is handed over. -/
theorem ship_cases (line : String) (s : Shipment) :
    (s.shipper.accepting = true ∧ s.shipper.isOver = false ∧
      s.ship line = { s with shipper := { s.shipper with queue := s.shipper.queue ++ [line] },
                             orders := s.orders ++ [.ship line], taken := s.taken ++ [line] }) ∨
    ((s.shipper.accepting = false ∨ s.shipper.isOver = true) ∧
      s.ship line =
        { s with orders := s.orders ++ [.ship line], traced := s.traced ++ [line] }) := by
  cases haccepting : s.shipper.accepting <;> cases hover : s.shipper.isOver <;>
    simp [ship, Shipper.emit, haccepting, hover]

theorem Accounted.ship {done : List Parcel} (hs : s.Accounted done) (line : String) :
    (s.ship line).Accounted done := by
  rcases ship_cases line s with ⟨haccepting, hover, heq⟩ | ⟨-, heq⟩ <;> rw [heq]
  · cases hs with
    | idle worker taken written =>
      refine .idle worker ?_ written
      exact (congrArg (· ++ [line]) taken).trans (List.append_assoc ..)
    | writing worker hrest taken written =>
      refine .writing worker hrest ?_ written
      exact (congrArg (· ++ [line]) taken).trans (List.append_assoc ..)
    | ended worker => simp [Shipper.isOver, worker] at hover
    | crashed worker => simp [Shipper.isOver, worker] at hover
  · cases hs with
    | idle worker taken written => exact .idle worker taken written
    | writing worker hrest taken written => exact .writing worker hrest taken written
    | ended worker accepting hqueue taken written flushed =>
      exact .ended worker accepting hqueue taken written flushed
    | crashed worker taken written => exact .crashed worker taken written

theorem Accounted.stop {done : List Parcel} (hs : s.Accounted done) : s.stop.Accounted done := by
  cases hs with
  | idle worker taken written => exact .idle worker taken written
  | writing worker hrest taken written => exact .writing worker hrest taken written
  | ended worker _ hqueue taken written flushed =>
    exact .ended worker rfl hqueue taken written flushed
  | crashed worker taken written => exact .crashed worker taken written

/-- A line is taken, or goes to the diagnostics. -/
theorem ship_perm (line : String) (s : Shipment) :
    ((s.ship line).taken ++ (s.ship line).traced).Perm (s.taken ++ s.traced ++ [line]) := by
  rcases ship_cases line s with ⟨-, -, heq⟩ | ⟨-, heq⟩ <;> rw [heq, List.append_assoc]
  · rw [List.append_assoc]
    exact .append_left _ List.perm_append_comm

theorem ship_orders (line : String) (s : Shipment) :
    (s.ship line).orders = s.orders ++ [.ship line] ∧ (s.ship line).reports = s.reports := by
  rcases ship_cases line s with ⟨-, -, heq⟩ | ⟨-, heq⟩ <;> rw [heq] <;> exact ⟨rfl, rfl⟩

/-- What was asked stays asked. -/
theorem Later.orders_append (H : s.Later writer t) : ∃ more, t.orders = s.orders ++ more := by
  refine H.keeps (Q := fun t => ∃ more, t.orders = s.orders ++ more) ?_
    ⟨[], (List.append_nil _).symm⟩
  rintro t u ⟨more, horders⟩ h
  cases h with
  | ships line =>
    exact ⟨more ++ [.ship line], by rw [(ship_orders line t).1, horders, List.append_assoc]⟩
  | stops => exact ⟨more ++ [.stop], by rw [Shipment.stop, horders, List.append_assoc]⟩
  | works h => exact ⟨more, h.history_eq.1.trans horders⟩

/-- Each line that was handed over is in one place. -/
structure Kept (s : Shipment) : Prop where
  accounted : ∃ done, s.Accounted done ∧ s.Told done
  perm : (s.taken ++ s.traced).Perm (s.orders.filterMap Order.line?)

theorem Kept.step (hs : s.Kept) (h : s.Step writer t) : t.Kept := by
  obtain ⟨done, haccounted, htold⟩ := hs.accounted
  cases h with
  | ships line =>
    obtain ⟨horders, hreports⟩ := ship_orders line s
    refine ⟨⟨done, haccounted.ship line, htold.keep List.countP_nil ?_⟩, ?_⟩
    · exact hreports.trans (List.append_nil _).symm
    · rw [horders, List.filterMap_append]
      exact (ship_perm line s).trans (hs.perm.append_right _)
  | stops =>
    refine ⟨⟨done, haccounted.stop, htold⟩, ?_⟩
    rw [Shipment.stop, List.filterMap_append]
    exact (List.append_nil _).symm ▸ hs.perm
  | works h =>
    obtain ⟨horders, htaken, htraced, -⟩ := h.history_eq
    exact ⟨haccounted.work htold h, htaken ▸ htraced ▸ horders ▸ hs.perm⟩

theorem kept_of_reachable (h : Reachable writer s) : s.Kept :=
  h.keeps .step ⟨⟨[], accounted_start, rfl⟩, .refl _⟩

/-! ## The way to the end -/

/-- How many moves the worker makes at most if nothing more is handed over. -/
def movesLeft (s : Shipment) : Nat :=
  (s.shipper.queue.map fun line => (Shipper.frame line).length + 1).sum +
    match s.shipper.worker with
    | .idle => 1
    | .writing rest => rest.length + 1
    | .ended | .crashed => 0

theorem Accounted.movesLeft_lt {done : List Parcel} (hs : s.Accounted done)
    (h : s.Work writer t) : t.movesLeft < s.movesLeft := by
  cases h with
  | picks h =>
    obtain ⟨line, queue, worker, hqueue, rfl⟩ := of_pick? h
    simp only [movesLeft, worker, hqueue, List.map_cons, List.sum_cons]
    omega
  | writes worker =>
    cases hs with
    | @writing p worker' hrest taken written =>
      cases worker.symm.trans worker'
      have hlength : 0 < p.rest.length := List.length_pos_iff.mpr hrest
      have hmove := written_write writer worker
      generalize s.shipper.write writer = result at hmove ⊢
      cases hmove with
      | done | givenUp => simpa only [movesLeft, worker, Nat.add_lt_add_iff_left,
          Nat.lt_add_left_iff_pos] using hlength
      | goesOn hn =>
        simp only [movesLeft, worker, List.length_drop]
        omega
      | crashed =>
        simp only [movesLeft, worker, List.map_nil, List.sum_nil]
        omega
    | idle worker' | ended worker' | crashed worker' => cases worker.symm.trans worker'
  | flushes h =>
    obtain ⟨worker, hqueue, accepting⟩ := mayFlush_iff.mp h
    simp only [movesLeft, worker, hqueue, Shipper.flush]
    exact Nat.lt_succ_self _

/-- A worker that is not over makes a move, unless it waits for a line. -/
theorem exists_work (writer : Writer) (s : Shipment) (hover : s.shipper.isOver = false)
    (h : s.shipper.worker ≠ .idle ∨ s.shipper.queue ≠ [] ∨ s.shipper.accepting = false) :
    ∃ t, s.Work writer t := by
  cases hworker : s.shipper.worker with
  | idle =>
    cases hqueue : s.shipper.queue with
    | cons line queue =>
      exact ⟨_, .picks (by rw [Shipper.pick?, hworker, hqueue])⟩
    | nil =>
      refine ⟨_, .flushes (mayFlush_iff.mpr ⟨hworker, hqueue, ?_⟩)⟩
      exact (h.resolve_left (· hworker)).resolve_left (· hqueue)
  | writing rest => exact ⟨_, .writes hworker⟩
  | ended | crashed => simp [Shipper.isOver, hworker] at hover

/-- A worker whose shipper was stopped comes to its end. -/
theorem exists_over (h : Reachable writer s) (accepting : s.shipper.accepting = false) :
    ∃ t, Working writer s t ∧ t.shipper.isOver = true := by
  induction hn : s.movesLeft using Nat.strongRecOn generalizing s with
  | _ n ih =>
    cases hover : s.shipper.isOver with
    | true => exact ⟨s, .refl s, hover⟩
    | false =>
      obtain ⟨t, hwork⟩ := exists_work writer s hover (.inr (.inr accepting))
      obtain ⟨done, haccounted, -⟩ := (kept_of_reachable h).accounted
      obtain ⟨u, hworking, hu⟩ := ih _ (hn ▸ haccounted.movesLeft_lt hwork)
        (h.step (.works hwork)) (hwork.history_eq.2.2.2.trans accepting) rfl
      exact ⟨u, .step hwork hworking, hu⟩

end Shipment

end Logbook.Delivery
