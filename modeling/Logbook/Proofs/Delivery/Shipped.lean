import Logbook.Proofs.Delivery.Shipment
import Logbook.Proofs.Record.OneLine
import Logbook.Proofs.Text.Utf8
import Logbook.Rehearsal.Transcript

/-! What arrives of the lines that a shipper is handed. A writer that never fails receives each line
that was handed over before the first stop, once and in order, and the other lines go to the
diagnostics. A line that a writer fails to take is given up, with a report and nothing else. -/

namespace Logbook.Delivery

/-- A writer that never fails. It accepts as many bytes as it likes, but some. -/
structure Writer.Works (w : Writer) : Prop where
  call : ∀ n offered, 0 < offered → ∃ k, w.call n offered = .accepts k ∧ 0 < k ∧ k ≤ offered
  flush : w.flush = .ok ()

/-- The bytes that the worker still has to write. -/
def Shipper.pending (s : Shipper) : List UInt8 :=
  (match s.worker with
    | .writing rest => rest
    | _ => []) ++ s.queue.flatMap frame

/-- Framed lines that have no newline can be told apart again. -/
theorem splitLines_flatMap_frame {lines : List String} (h : ∀ line ∈ lines, '\n' ∉ line.toList) :
    Rehearsal.Transcript.splitLines (lines.flatMap Shipper.frame) = lines ++ [""] := by
  induction lines with
  | nil => rfl
  | cons line lines ih =>
    have hbytes : ∀ b ∈ line.toUTF8.data.toList, decide (b = 10) = false := by
      intro b hb
      refine decide_eq_false fun hb10 => h line (.head _) ?_
      exact Lossy.newline_mem_of_mem_toUTF8 (hb10 ▸ hb)
    have hlines := ih fun line hline => h line (.tail _ hline)
    rw [Rehearsal.Transcript.splitLines] at hlines ⊢
    rw [List.flatMap_cons, Shipper.frame, List.append_assoc, List.singleton_append,
      List.splitOnP_append_cons_of_forall_mem hbytes 10 (decide_eq_true rfl), List.map_cons,
      hlines, Lossy.decode_toUTF8, List.cons_append]

namespace Shipment

variable {writer : Writer} {s t u : Shipment}

/-! ## Writers that never fail -/

/-- A shipper whose writer never fails. It takes lines until the first stop, and nothing is ever
reported. -/
structure Sure (s : Shipment) : Prop where
  reports : s.reports = []
  worker : s.shipper.worker ≠ .crashed
  accepting : s.shipper.accepting = true ↔ Order.stop ∉ s.orders
  awaited : s.shipper.awaited = true ↔ Order.stop ∈ s.orders
  taken : s.taken = Order.beforeStop s.orders
  traced : s.traced = Order.afterStop s.orders

theorem sure_start : start.Sure := ⟨rfl, nofun, ⟨nofun, fun _ => rfl⟩, ⟨nofun, nofun⟩, rfl, rfl⟩

/-- A shipper that takes lines has not come to its end. -/
theorem Sure.stop_mem_of_isOver (hs : s.Sure) {done : List Parcel} (hdone : s.Accounted done)
    (hover : s.shipper.isOver = true) : Order.stop ∈ s.orders := by
  refine Decidable.byContradiction fun hmem => ?_
  have haccepting := hs.accepting.mpr hmem
  cases hdone with
  | idle worker | writing worker => simp [Shipper.isOver, worker] at hover
  | ended _ accepting => cases haccepting.symm.trans accepting
  | crashed worker => exact hs.worker worker

theorem Sure.ship (hs : s.Sure) {done : List Parcel} (hdone : s.Accounted done) (line : String) :
    (s.ship line).Sure := by
  have hmem : Order.stop ∈ s.orders ++ [.ship line] ↔ Order.stop ∈ s.orders := by simp
  rcases ship_cases line s with ⟨haccepting, -, heq⟩ | ⟨hrefused, heq⟩ <;> rw [heq]
  · have hstop := hs.accepting.mp haccepting
    refine ⟨hs.reports, hs.worker, hs.accepting.trans (not_congr hmem.symm),
      hs.awaited.trans hmem.symm, ?_, ?_⟩
    · rw [Order.beforeStop_append hstop, ← Order.beforeStop_of_not_mem hstop]
      exact congrArg (· ++ [line]) hs.taken
    · rw [Order.afterStop_append hstop]
      exact hs.traced.trans (Order.afterStop_of_not_mem hstop)
  · have hstop : Order.stop ∈ s.orders := by
      rcases hrefused with haccepting | hover
      · exact Decidable.byContradiction fun hmem =>
          Bool.noConfusion (haccepting.symm.trans (hs.accepting.mpr hmem))
      · exact hs.stop_mem_of_isOver hdone hover
    refine ⟨hs.reports, hs.worker, hs.accepting.trans (not_congr hmem.symm),
      hs.awaited.trans hmem.symm, ?_, ?_⟩
    · rw [Order.beforeStop_append_of_mem hstop]
      exact hs.taken
    · rw [Order.afterStop_append_of_mem hstop]
      exact congrArg (· ++ [line]) hs.traced

theorem Sure.stop (hs : s.Sure) : s.stop.Sure := by
  have hmem : Order.stop ∈ s.orders ++ [.stop] := List.mem_append_right _ (.head _)
  refine ⟨hs.reports, hs.worker, ⟨nofun, fun h => absurd hmem h⟩, ⟨fun _ => hmem, fun _ => rfl⟩,
    ?_, ?_⟩
  · refine hs.taken.trans ?_
    change _ = Order.beforeStop (s.orders ++ [.stop])
    by_cases hstop : Order.stop ∈ s.orders
    · rw [Order.beforeStop_append_of_mem hstop]
    · rw [Order.beforeStop_append hstop, Order.beforeStop_of_not_mem hstop]
      exact (List.append_nil _).symm
  · refine hs.traced.trans ?_
    change _ = Order.afterStop (s.orders ++ [.stop])
    by_cases hstop : Order.stop ∈ s.orders
    · rw [Order.afterStop_append_of_mem hstop]
      exact (List.append_nil _).symm
    · rw [Order.afterStop_append hstop, Order.afterStop_of_not_mem hstop]
      rfl

theorem Sure.work (hw : writer.Works) (hs : s.Sure) {done : List Parcel} (hdone : s.Accounted done)
    (h : s.Work writer t) : t.Sure := by
  cases h with
  | picks h =>
    obtain ⟨line, queue, worker, -, rfl⟩ := of_pick? h
    exact ⟨hs.reports, nofun, hs.accepting, hs.awaited, hs.taken, hs.traced⟩
  | @writes rest worker =>
    have hrest : 0 < rest.length := by
      cases hdone with
      | writing worker' hrest =>
        cases worker.symm.trans worker'
        exact List.length_pos_iff.mpr hrest
      | idle worker' | ended worker' | crashed worker' => cases worker.symm.trans worker'
    obtain ⟨k, hcall, hk, -⟩ := hw.call (s.shipper.calls + 1) _ hrest
    have hmove := written_write writer worker
    generalize s.shipper.write writer = result at hmove ⊢
    cases hmove with
    | done | goesOn =>
      refine ⟨?_, nofun, hs.accepting, hs.awaited, hs.taken, hs.traced⟩
      exact (List.append_nil _).trans hs.reports
    | givenUp message hcall' =>
      rw [hcall] at hcall'
      rcases hcall' with hcall' | hcall' <;> cases hcall'
      exact absurd hk (Nat.lt_irrefl 0)
    | crashed hcall' => cases hcall.symm.trans hcall'
  | flushes h =>
    refine ⟨?_, nofun, hs.accepting, hs.awaited, hs.taken, hs.traced⟩
    rw [Shipper.flush, hw.flush]
    exact (List.append_nil _).trans hs.reports

theorem sure_of_reachable (hw : writer.Works) (h : Reachable writer s) : s.Kept ∧ s.Sure := by
  refine h.keeps (Q := fun s => s.Kept ∧ s.Sure) ?_
    ⟨⟨⟨[], accounted_start, rfl⟩, .refl _⟩, sure_start⟩
  rintro s t ⟨hkept, hsure⟩ h
  obtain ⟨done, hdone, -⟩ := hkept.accounted
  refine ⟨hkept.step h, ?_⟩
  cases h with
  | ships line => exact hsure.ship hdone line
  | stops => exact hsure.stop
  | works h => exact hsure.work hw hdone h

/-- Nothing was given up: what was written and what is on the way are the lines that were taken. -/
theorem Sure.written_pending (hs : s.Sure) (hkept : s.Kept) :
    s.shipper.written ++ s.shipper.pending =
      (Order.beforeStop s.orders).flatMap Shipper.frame := by
  obtain ⟨done, hdone, htold⟩ := hkept.accounted
  have hwhole : ∀ p ∈ done, p.isWhole = true := by
    rw [Told, hs.reports, List.countP_nil, eq_comm, List.countP_eq_zero] at htold
    exact fun p hp => by simpa using htold p hp
  rw [← hs.taken]
  cases hdone with
  | idle worker taken written =>
    rw [Shipper.pending, worker, written, taken, Parcel.flatMap_sent hwhole, List.flatMap_append,
      List.nil_append]
  | @writing p worker hrest taken written =>
    rw [Shipper.pending, worker, written, taken, Parcel.flatMap_sent hwhole, List.flatMap_append,
      List.flatMap_cons, p.frame_eq]
    simp only [List.append_assoc]
  | ended worker _ hqueue taken written =>
    rw [Shipper.pending, worker, hqueue, written, taken, Parcel.flatMap_sent hwhole]
    exact List.append_nil _
  | crashed worker => exact absurd worker hs.worker

/-- A worker that is over has written all lines, and has flushed the writer after that. -/
theorem Sure.of_isOver (hs : s.Sure) (hkept : s.Kept) (hover : s.shipper.isOver = true) :
    s.shipper.written = (Order.beforeStop s.orders).flatMap Shipper.frame ∧
      s.flushed = some s.shipper.written := by
  have hwritten := hs.written_pending hkept
  obtain ⟨done, hdone, -⟩ := hkept.accounted
  cases hdone with
  | idle worker | writing worker => simp [Shipper.isOver, worker] at hover
  | ended worker _ hqueue _ _ flushed =>
    rw [Shipper.pending, worker, hqueue, List.flatMap_nil, List.append_nil, List.append_nil]
      at hwritten
    exact ⟨hwritten, flushed⟩
  | crashed worker => exact absurd worker hs.worker

/-- **Each line once.** The writer never fails, and the worker makes its moves in between as it
likes. What is written and what is on the way are at any time the lines that were handed over before
the first stop, framed and in order, and all other lines go to the diagnostics in order. When the
worker is over, all of these lines are written, and splitting gives them back. The first stop waits:
if it is not too late, all lines are written and flushed when it returns, and otherwise the worker
can still come to this end. -/
theorem each_line_once (hw : writer.Works) (h : Reachable writer s) :
    s.taken = Order.beforeStop s.orders ∧ s.traced = Order.afterStop s.orders ∧
    s.taken ++ s.traced = s.orders.filterMap Order.line? ∧
    s.shipper.written ++ s.shipper.pending = s.taken.flatMap Shipper.frame ∧
    (s.shipper.isOver = true →
      s.shipper.written = s.taken.flatMap Shipper.frame ∧ s.flushed = some s.shipper.written ∧
      ((∀ line ∈ s.taken, ∃ masked r, line = Record.line masked r) →
        Rehearsal.Transcript.splitLines s.shipper.written = s.taken ++ [""])) ∧
    (s.shipper.halt.1 = true → ∀ {t}, s.stop.Later writer t → ∀ due now,
      (t.shipper.look due now = some true →
        t.shipper.written = (s.orders.filterMap Order.line?).flatMap Shipper.frame ∧
        t.flushed = some t.shipper.written) ∧
      (t.shipper.look due now = some false → ∃ u, Working writer t u ∧
        u.shipper.written = (s.orders.filterMap Order.line?).flatMap Shipper.frame ∧
        u.flushed = some u.shipper.written)) := by
  obtain ⟨hkept, hsure⟩ := sure_of_reachable hw h
  refine ⟨hsure.taken, hsure.traced, ?_, ?_, fun hover => ?_, fun hhalt t H due now => ?_⟩
  · rw [hsure.taken, hsure.traced, Order.beforeStop_append_afterStop]
  · rw [hsure.written_pending hkept, hsure.taken]
  · obtain ⟨hwritten, hflushed⟩ := hsure.of_isOver hkept hover
    rw [← hsure.taken] at hwritten
    refine ⟨hwritten, hflushed, fun hlines => ?_⟩
    rw [hwritten]
    refine splitLines_flatMap_frame fun line hline => ?_
    obtain ⟨masked, r, rfl⟩ := hlines line hline
    exact Record.newline_not_mem_line masked r
  · have hstop : Order.stop ∉ s.orders := by
      rw [← hsure.awaited]
      simpa [Shipper.halt] using hhalt
    have ht : Reachable writer t := (h.step .stops).trans H
    have hbefore {u : Shipment} (H : s.stop.Later writer u) :
        Order.beforeStop u.orders = s.orders.filterMap Order.line? := by
      obtain ⟨more, horders⟩ := H.orders_append
      rw [horders, Shipment.stop, List.append_assoc, Order.beforeStop_append hstop]
      exact List.append_nil _
    constructor
    · intro hlook
      obtain ⟨hkept, hsure⟩ := sure_of_reachable hw ht
      rw [← hbefore H]
      exact hsure.of_isOver hkept (Shipper.isOver_of_look hlook)
    · intro _
      have haccepting : t.shipper.accepting = false := by
        obtain ⟨more, horders⟩ := H.orders_append
        refine Bool.eq_false_iff.mpr fun haccepting => ?_
        refine (sure_of_reachable hw ht).2.accepting.mp haccepting ?_
        rw [horders]
        exact List.mem_append_left _ (List.mem_append_right _ (.head _))
      obtain ⟨u, hworking, hover⟩ := exists_over ht haccepting
      obtain ⟨hkept, hsure⟩ := sure_of_reachable hw (ht.trans hworking.later)
      rw [← hbefore (H.trans hworking.later)]
      exact ⟨u, hworking, hsure.of_isOver hkept hover⟩

/-- A writer that accepts two bytes at most. -/
def sips : Writer := ⟨fun _ offered => .accepts (min 2 offered), .ok ()⟩

theorem works_sips : sips.Works where
  call _ offered h := ⟨min 2 offered, rfl, by omega, Nat.min_le_right ..⟩
  flush := rfl

/-- One line is written in two calls, and another one comes too late. -/
theorem each_line_once_twoCalls : ∃ s : Shipment, sips.Works ∧ Reachable sips s ∧
    s.shipper.isOver = true ∧ s.taken = ["on"] ∧ s.traced = ["off"] ∧
    s.shipper.written = ["on"].flatMap Shipper.frame ∧ s.flushed = some s.shipper.written := by
  have h : Reachable sips (start.ship "on") := .step .refl (.ships "on")
  have h := h.step (.works (.picks rfl))
  have h := h.step (.works (.writes rfl))
  have h := h.step .stops
  have h := h.step (.works (.writes rfl))
  have h := (h.step (.ships "off")).step (.works (.flushes rfl))
  obtain ⟨hwritten, hflushed, -⟩ := (each_line_once works_sips h).2.2.2.2.1 rfl
  exact ⟨_, works_sips, h, rfl, rfl, rfl, hwritten, hflushed⟩

/-! ## Writers of any kind -/

/-- **Where each line goes.** Of the lines that are handed over, the shipper takes some, and the
others go to the diagnostics. A worker that ends is through with all lines that it has taken: each
was written, or was given up with a report of its own. A worker that crashes takes with it the line
in its hand and those behind it. So each line is written or in the diagnostics, if no line was given
up and the worker ended. -/
theorem each_line_told (h : Reachable writer s) :
    (s.taken ++ s.traced).Perm (s.orders.filterMap Order.line?) ∧
    (s.shipper.worker = .ended → ∃ done : List Parcel, s.taken = done.map Parcel.line ∧
      s.shipper.written = done.flatMap Parcel.sent ∧
      s.reports.countP Shipper.isGivingUp = done.countP fun p => !p.isWhole) ∧
    (s.shipper.worker = .crashed → ∃ (done : List Parcel) (p : Parcel) (lost : List String),
      s.taken = done.map Parcel.line ++ p.line :: lost ∧
      s.shipper.written = done.flatMap Parcel.sent ++ p.sent ∧
      s.reports.countP Shipper.isGivingUp = done.countP fun p => !p.isWhole) ∧
    (s.shipper.worker = .ended → (∀ d ∈ s.reports, Shipper.isGivingUp d = false) →
      s.shipper.written = s.taken.flatMap Shipper.frame) := by
  obtain ⟨⟨done, hdone, htold⟩, hperm⟩ := kept_of_reachable h
  refine ⟨hperm, fun worker => ?_, fun worker => ?_, fun worker hreports => ?_⟩
  · cases hdone with
    | ended _ _ _ taken written => exact ⟨done, taken, written, htold⟩
    | idle worker' | writing worker' | crashed worker' => cases worker.symm.trans worker'
  · cases hdone with
    | crashed _ taken written => exact ⟨done, _, _, taken, written, htold⟩
    | idle worker' | writing worker' | ended worker' => cases worker.symm.trans worker'
  · have hwhole : ∀ p ∈ done, p.isWhole = true := by
      rw [Told, List.countP_eq_zero.mpr fun d hd => by simp [hreports d hd], eq_comm,
        List.countP_eq_zero] at htold
      exact fun p hp => by simpa using htold p hp
    cases hdone with
    | ended _ _ _ taken written => rw [written, taken, Parcel.flatMap_sent hwhole]
    | idle worker' | writing worker' | crashed worker' => cases worker.symm.trans worker'

/-- A writer that takes one byte and then panics. -/
def breaks : Writer := ⟨fun n _ => if n = 1 then .accepts 1 else .panics, .ok ()⟩

/-- A line is lost in the middle, with the one behind it; the next one goes to the diagnostics. -/
theorem each_line_told_crashed : ∃ s : Shipment, Reachable breaks s ∧ s.traced = ["c"] ∧
    s.shipper.written = [97] ∧ (s.taken ++ s.traced).Perm ["a", "b", "c"] ∧
    ∃ (done : List Parcel) (p : Parcel) (lost : List String),
      s.taken = done.map Parcel.line ++ p.line :: lost := by
  have h : Reachable breaks (start.ship "a") := .step .refl (.ships "a")
  have h := (h.step (.ships "b")).step (.works (.picks rfl))
  have h := h.step (.works (.writes rfl))
  have h := h.step (.works (.writes rfl))
  have h := h.step (.ships "c")
  obtain ⟨hperm, -, hcrashed, -⟩ := each_line_told h
  obtain ⟨done, p, lost, htaken, -⟩ := hcrashed rfl
  exact ⟨_, h, rfl, rfl, hperm, done, p, lost, htaken⟩

/-- A writer that refuses its first call. -/
def hiccups : Writer :=
  ⟨fun n offered => if n = 1 then .fails "disk full" else .accepts offered, .ok ()⟩

/-- A line that the writer refuses is nowhere in what is written, and does not go to the diagnostics
as other lines do that a shipper cannot take. -/
theorem refused_line_vanishes : ¬ ∀ (writer : Writer) (s : Shipment), Reachable writer s →
    s.shipper.worker = .ended → ∀ line, Order.ship line ∈ s.orders →
      Shipper.frame line <:+: s.shipper.written ∨ line ∈ s.traced := by
  intro hclaim
  have h : Reachable hiccups (start.ship "lost") := .step .refl (.ships "lost")
  have h := (h.step (.ships "kept")).step .stops
  have h := h.step (.works (.picks rfl))
  have h := h.step (.works (.writes rfl))
  have h := h.step (.works (.picks rfl))
  have h := h.step (.works (.writes rfl))
  have h := h.step (.works (.flushes rfl))
  rcases hclaim _ _ h rfl "lost" (.head _) with hwritten | htraced
  · exact absurd hwritten (by decide)
  · cases htraced

end Shipment

end Logbook.Delivery
