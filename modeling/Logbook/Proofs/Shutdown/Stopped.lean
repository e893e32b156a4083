import Logbook.Proofs.Shutdown.Deadline
import Logbook.Proofs.Shutdown.Stopping

/-! The records of the stop of all runs of a sequencer, what the metrics count of the stages, and
where the lines go. Each run emits its own record; if runs overlap, the first one that comes to the
log shipping stops the shipper for all of them. -/

namespace Logbook.Shutdown

open Delivery (Writer Order Shipper Shipment)

variable {η : Type} {P : Surroundings η} {writer : Writer} {stops : Entry η → Bool} {timeout : Nat}
  {delay : Option Nat} {state : P.State}

/-- The record of the stop is emitted. -/
theorem Run.Does.emits {c : Scene P} {r : Run P} {d d' : Drain (Entry η)} {q : Sequencer (Entry η)}
    {e : Record.Emission} (masked : Trace.Mask.Registry) (moment : Moment)
    (course : r.course = .moving d)
    (h : d.step masked c.now moment c.sequencer = (.emitted (some e), d', q)) :
    r.Does c [.emitted e] { c with sequencer := q }
      { r with course := .moving d', moves := r.moves + 1 } := by
  have hdoes := Run.Does.moves masked moment course (.emits masked moment course h)
  rwa [h] at hdoes

namespace Diaries

variable {s t u : Diaries P} {y z : Diary P}

theorem Reachable.stage_of_hook (h : Reachable writer stops timeout delay state s) (stage : Stage) :
    ∀ e ∈ s.sequencer.hooks stage, e.stage = stage := by
  intro e he
  have hpending : s.sequencer.hooks stage = _ := h.drains.tallied.pending stage
  rw [hpending] at he
  exact (Entry.isPending_iff.mp (List.mem_filter.mp he).2).1

/-- What holds of a run and its deeds when it begins, and after each of its moves, holds of all
runs. -/
theorem Reachable.all_diaries {Q : Diary P → Prop}
    (h : Reachable writer stops timeout delay state s)
    (begins : ∀ now due, Q ⟨⟨now, .delaying due, [], [], 0⟩, []⟩)
    (does : ∀ {c c' : Scene P} {t : Diary P} {r : Run P} {deeds : List (Deed η)},
      c.sequencer.timeout = timeout → (∀ stage, ∀ e ∈ c.sequencer.hooks stage, e.stage = stage) →
      Q t → t.run.Does c deeds c' r → Q ⟨r, t.deeds ++ deeds⟩) :
    ∀ t ∈ s.diaries, Q t := by
  induction h with
  | refl => exact fun t ht => nomatch ht
  | step H h ih =>
    cases h with
    | register | works | tick | emits | ships | halts => exact ih
    | begin =>
      intro t ht
      rcases List.mem_append.mp ht with ht | ht
      · exact ih t ht
      · rw [List.mem_singleton.mp ht]
        exact begins ..
    | moves hdiaries h =>
      rw [hdiaries] at ih
      intro t ht
      rcases mem_between.mp ht with rfl | ht
      · exact does (Reachable.drains H).settings_eq.1 (Reachable.stage_of_hook H)
          (ih _ (mem_between.mpr (.inl rfl))) h
      · exact ih t (mem_between.mpr (.inr ht))

theorem Reachable.sound (h : Reachable writer stops timeout delay state s) :
    ∀ t ∈ s.diaries, t.Sound timeout :=
  h.all_diaries (fun _ _ => .delaying rfl rfl) fun htimeout hhooks ht h => ht.does hhooks htimeout h

theorem Reachable.calls_eq (h : Reachable writer stops timeout delay state s) :
    ∀ t ∈ s.diaries, t.deeds.filterMap Deed.called? = t.run.calls.map Call.entry :=
  h.all_diaries (fun _ _ => rfl) fun _ _ ht h => by
    rw [List.filterMap_append, ht, h.turn.2]

/-- The metrics count what the closings of a stage tell, over all runs. -/
theorem Reachable.counter_stageKey (h : Reachable writer stops timeout delay state s)
    (stage : Stage) : s.metrics.counter (Metrics.stageKey stage) =
      (s.diaries.map fun t => (closings stage t.deeds).sum).sum % 2 ^ 64 := by
  induction h with
  | refl => rfl
  | step H h ih =>
    cases h with
    | register | works | tick | ships | halts => exact ih
    | begin =>
      rw [List.map_append, List.sum_append]
      exact ih
    | emits e => exact (Metrics.counter_recordEmitted_stageKey ..).trans ih
    | moves hdiaries h =>
      rw [hdiaries] at ih
      refine (counter_measure stage _ (ih ▸ Nat.mod_lt _ (Nat.two_pow_pos 64))).trans ?_
      rw [ih, Nat.mod_add_mod]
      simp only [move, List.map_append, List.map_cons, List.sum_append, List.sum_cons,
        closings_append, Nat.add_assoc, Nat.add_comm, Nat.add_left_comm]

/-! ## Where the lines go -/

theorem stop_mem_deliver {deeds : List (Deed η)} {shipment : Shipment}
    (h : Order.stop ∈ (deeds.foldl (Deed.deliver stops) shipment).orders) :
    Order.stop ∈ shipment.orders ∨ ∃ e, .called e ∈ deeds ∧ stops e = true := by
  induction deeds generalizing shipment with
  | nil => exact .inl h
  | cons deed deeds ih =>
    rcases ih h with h | ⟨e, he, hstops⟩
    · cases deed with
      | called e =>
        rw [Deed.deliver] at h
        by_cases hstops : stops e = true
        · exact .inr ⟨e, .head _, hstops⟩
        · exact .inl (by rwa [if_neg hstops] at h)
      | emitted e =>
        rw [Deed.deliver, (Shipment.ship_orders ..).1] at h
        exact .inl ((List.mem_append.mp h).resolve_right (by simp))
      | wrote | returned | closed => exact .inl h
    · exact .inr ⟨e, .tail _ he, hstops⟩

/-- A shipper that was stopped was stopped by a hook, or by somebody else. -/
theorem Reachable.stopped_by (h : Reachable writer stops timeout delay state s)
    (hstop : Order.stop ∈ s.shipment.orders) :
    s.halted = true ∨ ∃ t ∈ s.diaries, ∃ e, .called e ∈ t.deeds ∧ stops e = true := by
  induction h with
  | refl => cases hstop
  | step H h ih =>
    cases h with
    | register | works | tick => exact ih hstop
    | begin =>
      rcases ih hstop with h | ⟨t, ht, h⟩
      · exact .inl h
      · exact .inr ⟨t, List.mem_append_left _ ht, h⟩
    | emits e =>
      rw [(Shipment.ship_orders ..).1] at hstop
      exact ih ((List.mem_append.mp hstop).resolve_right (by simp))
    | ships h => exact ih (h.history_eq.1 ▸ hstop)
    | halts => exact .inl rfl
    | moves hdiaries h =>
      rcases stop_mem_deliver hstop with hstop | ⟨e, he, hstops⟩
      · rcases ih hstop with hhalted | ⟨t, ht, e, he, hstops⟩
        · exact .inl hhalted
        · rcases mem_between.mp (hdiaries ▸ ht) with rfl | ht
          · exact .inr ⟨_, mem_between.mpr (.inl rfl), e, List.mem_append_left _ he, hstops⟩
          · exact .inr ⟨t, mem_between.mpr (.inr ht), e, he, hstops⟩
      · exact .inr ⟨_, mem_between.mpr (.inl rfl), e, List.mem_append_right _ he, hstops⟩

theorem ship_mem_deliver (writer : Writer) {deeds : List (Deed η)} {shipment : Shipment}
    {e : Record.Emission} (h : .emitted e ∈ deeds) :
    Order.ship e.line ∈ (deeds.foldl (Deed.deliver stops) shipment).orders := by
  obtain ⟨before, after, rfl⟩ := List.append_of_mem h
  obtain ⟨more, horders⟩ := (later_deliver writer stops after
    ((before.foldl (Deed.deliver stops) shipment).ship e.line)).orders_append
  rw [List.foldl_append, List.foldl_cons, Deed.deliver, horders, (Shipment.ship_orders ..).1]
  exact List.mem_append_left _ (List.mem_append_right _ (.head _))

/-- What a run emits is handed over to the shipper. -/
theorem Reachable.ship_mem (h : Reachable writer stops timeout delay state s) :
    ∀ t ∈ s.diaries, ∀ e, .emitted e ∈ t.deeds → Order.ship e.line ∈ s.shipment.orders := by
  induction h with
  | refl => exact fun t ht => nomatch ht
  | step H h ih =>
    obtain ⟨more, horders⟩ := h.shipment.orders_append
    have hkeep {o : Order} (ho : o ∈ _) := horders ▸ List.mem_append_left more ho
    cases h with
    | register | works | tick | emits | ships | halts =>
      exact fun t ht e he => hkeep (ih t ht e he)
    | begin =>
      intro t ht e he
      rcases List.mem_append.mp ht with ht | ht
      · exact hkeep (ih t ht e he)
      · rw [List.mem_singleton.mp ht] at he
        cases he
    | moves hdiaries h =>
      rw [hdiaries] at ih
      intro t ht e he
      rcases mem_between.mp ht with rfl | ht
      · rcases List.mem_append.mp he with he | he
        · exact hkeep (ih _ (mem_between.mpr (.inl rfl)) e he)
        · exact ship_mem_deliver writer he
      · exact hkeep (ih t (mem_between.mpr (.inr ht)) e he)

/-- While a run has not come to the log shipping, and no other one has, the shipper takes all
lines. -/
theorem Reachable.stop_not_mem (h : Reachable writer stops timeout delay state s)
    (hstops : ∀ e, stops e = true → e.stage = .stopLogShipping) (hhalted : s.halted = false)
    {before after : List (Diary P)} {t : Diary P} (hdiaries : s.diaries = before ++ t :: after)
    (hrecorded : ∀ k ∈ t.run.calls, k.entry.stage.isRecorded = true)
    (hothers : ∀ t' ∈ before ++ after, ∀ k ∈ t'.run.calls, stops k.entry = false) :
    Order.stop ∉ s.shipment.orders := by
  intro hstop
  rcases h.stopped_by hstop with hhalted' | ⟨t', ht', e, he, hstop⟩
  · cases hhalted.symm.trans hhalted'
  obtain ⟨k, hk, rfl⟩ : ∃ k ∈ t'.run.calls, k.entry = e := by
    rw [← List.mem_map, ← h.calls_eq t' ht']
    exact List.mem_filterMap.mpr ⟨_, he, rfl⟩
  rcases mem_between.mp (hdiaries ▸ ht') with rfl | ht'
  · have hstage := hrecorded k hk
    rw [hstops _ hstop] at hstage
    cases hstage
  · cases hstop.symm.trans (hothers t' ht' k hk)

/-- The lines that a shipper takes before its first stop arrive. -/
theorem written_of_taken (hw : writer.Works) {shipment later : Shipment}
    (h : shipment.Reachable writer) (hstop : Order.stop ∉ shipment.orders)
    (H : shipment.Later writer later) : ∃ more : List String,
      later.shipper.written ++ later.shipper.pending =
        (shipment.orders.filterMap Order.line? ++ more).flatMap Shipper.frame ∧
      (later.shipper.isOver = true → later.shipper.written =
        (shipment.orders.filterMap Order.line? ++ more).flatMap Shipper.frame) := by
  obtain ⟨hkept, hsure⟩ := Shipment.sure_of_reachable hw (h.trans H)
  obtain ⟨more, horders⟩ := H.orders_append
  refine ⟨Order.beforeStop more, ?_, fun hover => ?_⟩
  · rw [hsure.written_pending hkept, horders, Order.beforeStop_append hstop]
  · rw [(hsure.of_isOver hkept hover).1, horders, Order.beforeStop_append hstop]

/-- **The record of the stop.** A run that has come to its end has emitted one record, after the
last of the hooks inside of it had returned and before the first of the others was called. The
record tells of all that these hooks wrote and of the stages in which one was called, and of nothing
else. The counter of a stage grows by the number of its hooks that were called. The line goes to the
shipper; if that is stopped by hooks of its stage only, and no other run has called one, all lines
arrive that are handed over until the run comes there itself. -/
theorem one_stop_record (h : Reachable writer stops timeout delay state s) :
    (∀ t ∈ s.diaries, Divided timeout t.deeds ∧
      t.deeds.filterMap Deed.called? = t.run.calls.map Call.entry ∧
      (∀ e, .emitted e ∈ t.deeds → Order.ship e.line ∈ s.shipment.orders) ∧
      (∀ d, t.run.course = .moving d → ∃ deeds c r, t.run.Does s.toScene deeds c r) ∧
      t.run.moves ≤ 2 * t.run.calls.length + 21 ∧
      ∀ time, t.run.course = .finished time → Ended timeout t.deeds ∧ ∀ stage,
        (closings stage t.deeds).sum = t.run.calls.countP (·.entry.stage = stage)) ∧
    (∀ stage, s.metrics.counter (Metrics.stageKey stage) =
      (s.diaries.map fun t => (closings stage t.deeds).sum).sum % 2 ^ 64) ∧
    (writer.Works → (∀ e, stops e = true → e.stage = .stopLogShipping) → s.halted = false →
      ∀ before t after, s.diaries = before ++ t :: after →
      (∀ k ∈ t.run.calls, k.entry.stage.isRecorded = true) →
      (∀ t' ∈ before ++ after, ∀ k ∈ t'.run.calls, stops k.entry = false) →
      ∀ u, Later writer stops s u → ∃ more : List String,
        u.shipment.shipper.written ++ u.shipment.shipper.pending =
          (s.shipment.orders.filterMap Order.line? ++ more).flatMap Shipper.frame ∧
        (u.shipment.shipper.isOver = true → u.shipment.shipper.written =
          (s.shipment.orders.filterMap Order.line? ++ more).flatMap Shipper.frame)) := by
  refine ⟨fun t ht => ?_, h.counter_stageKey, ?_⟩
  · have hrun : t.run ∈ s.drains.runs := List.mem_map_of_mem ht
    refine ⟨(h.sound t ht).divided, h.calls_eq t ht, h.ship_mem t ht, fun d course => ?_,
      (h.drains.sparing t.run hrun).moves_le, fun time course => ?_⟩
    · obtain ⟨c, r, hadvance⟩ := Run.exists_advance s.toScene course
      exact ⟨_, c, r, .moves .empty ⟨0, 0⟩ course hadvance⟩
    · have hended := (h.sound t ht).ended_of_finished course
      refine ⟨hended, fun stage => ?_⟩
      rw [(hended.closed stage).sum_closings, calledIn_eq, h.calls_eq t ht, List.countP_map]
      rfl
  · intro hw hstops hhalted before t after hdiaries hrecorded hothers u H
    exact written_of_taken hw (Later.shipment h)
      (h.stop_not_mem hstops hhalted hdiaries hrecorded hothers) (Later.shipment H)

/-- Hooks that write into their scopes and return whenever they like. -/
def scribes : Surroundings Unit where
  State := Unit
  Active := Unit
  works _ _ _ _ := False
  calls _ _ _ _ _ _ := True
  proceeds _ _ _ _ _ _ := True
  returns _ _ _ _ _ := True
  panics _ _ _ _ _ := False
  waits _ _ _ _ := False
  exists_calls _ _ _ _ := ⟨(), (), trivial⟩

theorem scribes_moves (hook : Unit) (budget now : Nat) : scribes.calls hook budget now () () () ∧
    scribes.proceeds hook now () () () () ∧ scribes.returns hook now () () () :=
  ⟨trivial, trivial, trivial⟩

def stopsShipping (e : Entry Unit) : Bool := e.stage = .stopLogShipping

/-- A writer that accepts whatever it is offered. -/
def gulps : Writer := ⟨fun _ offered => .accepts offered, .ok ()⟩

theorem works_gulps : gulps.Works where
  call _ offered h := ⟨offered, rfl, h, Nat.le_refl _⟩
  flush := rfl

theorem Step.only {deeds : List (Deed η)} {c : Scene P} {r : Run P} (hdiaries : s.diaries = [y])
    (h : y.run.Does s.toScene deeds c r) : Step writer stops s (s.move stops [] y [] deeds c r) :=
  .moves hdiaries h

/-- Nothing has happened yet. -/
theorem Later.rest (_ : Later writer stops s t) : Later writer stops t t := .refl

/-- A hook puts a value, the record is emitted, and the shipper is stopped after it. -/
theorem one_stop_record_valuePut : ∃ s u : Diaries scribes,
    Reachable gulps stopsShipping 25000 none () s ∧ Later gulps stopsShipping s u ∧
    (∃ t ∈ u.diaries, t.run.course = .finished 0 ∧ Ended 25000 t.deeds) ∧
    u.metrics.counter (Metrics.stageKey .application) = 1 ∧
    ∃ (e : Record.Emission) (more : List String),
      u.shipment.shipper.written = (e.line :: more).flatMap Shipper.frame := by
  have h : Reachable gulps stopsShipping 25000 none () (start scribes 25000 none ()) := .refl
  have h := (h.step (.register .application ())).step (.register .stopLogShipping ())
  have h := h.step .begin
  have h := h.step (.only rfl (.begins rfl (.start .empty "id" ⟨0, 0⟩ rfl (Nat.le_refl _) rfl)))
  have h := h.step (.only rfl (.moves .empty ⟨0, 0⟩ rfl (.opens .empty ⟨0, 0⟩ rfl rfl)))
  have h := h.step (.only rfl (.moves .empty ⟨0, 0⟩ rfl (.opens .empty ⟨0, 0⟩ rfl rfl)))
  have h := h.step (.only rfl (.moves .empty ⟨0, 0⟩ rfl (.opens .empty ⟨0, 0⟩ rfl rfl)))
  have h := h.step (.only rfl (.moves .empty ⟨0, 0⟩ rfl (.opens .empty ⟨0, 0⟩ rfl rfl)))
  have h := h.step (.only rfl (.moves .empty ⟨0, 0⟩ rfl (.opens .empty ⟨0, 0⟩ rfl rfl)))
  have h := h.step (.only rfl (.moves .empty ⟨0, 0⟩ rfl (.opens .empty ⟨0, 0⟩ rfl rfl)))
  have h := h.step (.only rfl (.moves .empty ⟨0, 0⟩ rfl
    (.calls .empty ⟨0, 0⟩ rfl rfl (scribes_moves ..).1)))
  have h := h.step (.only rfl (.writes (.put .empty "key" ["value"]) rfl
    (.proceeds _ rfl (List.nil_append _).symm (scribes_moves () 0 _).2.1)))
  have h := h.step (.only rfl (.returns rfl rfl
    (.returns rfl (List.nil_append _).symm (scribes_moves () 0 _).2.2)))
  have h := h.step (.only rfl (.moves .empty ⟨0, 0⟩ rfl (.closes .empty ⟨0, 0⟩ rfl rfl)))
  have h := h.step (.only rfl (.moves .empty ⟨0, 0⟩ rfl (.opens .empty ⟨0, 0⟩ rfl rfl)))
  have hs := h.step (.only rfl (.emits .empty ⟨0, 0⟩ rfl rfl))
  have hship := (one_stop_record hs).2.2 works_gulps (fun _ => of_decide_eq_true) rfl [] _ [] rfl
    (List.all_eq_true.mp rfl) (fun _ h => absurd h List.not_mem_nil)
  have H := hs.rest.step (.only rfl (.moves .empty ⟨0, 0⟩ rfl (.opens .empty ⟨0, 0⟩ rfl rfl)))
  have H := H.step (.only rfl (.moves .empty ⟨0, 0⟩ rfl
    (.calls .empty ⟨0, 0⟩ rfl rfl (scribes_moves ..).1)))
  have H := H.step (.only rfl (.returns rfl rfl
    (.returns rfl List.singleton_append.symm (scribes_moves () 0 _).2.2)))
  have H := H.step (.only rfl (.moves .empty ⟨0, 0⟩ rfl (.closes .empty ⟨0, 0⟩ rfl rfl)))
  have H := H.step (.only rfl (.moves .empty ⟨0, 0⟩ rfl (.opens .empty ⟨0, 0⟩ rfl rfl)))
  have H := H.step (.only rfl (.moves .empty ⟨0, 0⟩ rfl (.finishes .empty ⟨0, 0⟩ rfl rfl)))
  obtain ⟨shipment, hworking, hover⟩ := Shipment.exists_over (Later.shipment (hs.trans H)) rfl
  have H := H.trans (later_of_working hworking)
  obtain ⟨more, -, hwritten⟩ := hship _ H
  obtain ⟨hruns, hcounter, -⟩ := one_stop_record (hs.trans H)
  have hfinished := (hruns _ (.head _)).2.2.2.2.2 0 rfl
  exact ⟨_, _, hs, H, ⟨_, .head _, rfl, hfinished.1⟩, (hcounter .application).trans rfl, _, more,
    hwritten hover⟩

/-- A line begins with the identifier of its record. -/
theorem toList_line (masked : Trace.Mask.Registry) (r : Record) : ∃ rest, (r.line masked).toList =
    '\x7b' :: (Json.renderString "id" ++ ':' :: (Json.renderString r.id ++ ',' :: rest)) := by
  obtain ⟨member, members, hmembers⟩ : ∃ member members,
      r.members masked = ("id", .string r.id) :: member :: members := ⟨_, _, rfl⟩
  refine ⟨Json.renderMembers (member :: members) ++ ['\x7d'], ?_⟩
  rw [Record.line, Json.text, String.toList_ofList, Record.toJson, hmembers, Json.render]
  simp only [Json.renderMembers, Json.render, List.cons_append, List.append_assoc]

theorem line_ne_of_id {masked masked' : Trace.Mask.Registry} {r r' : Record} (hr : r.id = "a")
    (hr' : r'.id = "b") : r.line masked ≠ r'.line masked' := by
  intro h
  obtain ⟨rest, hrest⟩ := toList_line masked r
  obtain ⟨rest', hrest'⟩ := toList_line masked' r'
  rw [h, hrest', hr, hr'] at hrest
  simp [Json.renderString, Json.escape] at hrest

theorem Step.first {deeds : List (Deed η)} {c : Scene P} {r : Run P} (hdiaries : s.diaries = [y, z])
    (h : y.run.Does s.toScene deeds c r) : Step writer stops s (s.move stops [] y [z] deeds c r) :=
  .moves hdiaries h

theorem Step.second {deeds : List (Deed η)} {c : Scene P} {r : Run P}
    (hdiaries : s.diaries = [y, z]) (h : z.run.Does s.toScene deeds c r) :
    Step writer stops s (s.move stops [y] z [] deeds c r) :=
  .moves hdiaries h

/-- Of two runs that overlap, the second one stops the shipper while a hook of the first one goes
on; the record of the first one is not among the lines that are written. -/
theorem stop_line_missing : ¬ ∀ s : Diaries scribes,
    Reachable gulps stopsShipping 25000 none () s → s.halted = false →
    s.shipment.shipper.isOver = true → ∀ t ∈ s.diaries, t.run.course = .finished 0 →
    ∀ e, .emitted e ∈ t.deeds →
      e.line ∈ Rehearsal.Transcript.splitLines s.shipment.shipper.written := by
  intro hclaim
  have h : Reachable gulps stopsShipping 25000 none () (start scribes 25000 none ()) := .refl
  have h := (h.step (.register .stopAcceptingExternal ())).step (.register .stopLogShipping ())
  have h := h.step .begin
  have h := h.step (.only rfl (.begins rfl (.start .empty "a" ⟨0, 0⟩ rfl (Nat.le_refl _) rfl)))
  have h := h.step (.only rfl (.moves .empty ⟨0, 0⟩ rfl (.opens .empty ⟨0, 0⟩ rfl rfl)))
  have h := h.step (.only rfl (.moves .empty ⟨0, 0⟩ rfl
    (.calls .empty ⟨0, 0⟩ rfl rfl (scribes_moves ..).1)))
  have h := h.step .begin
  have h := h.step (.second rfl (.begins rfl (.start .empty "b" ⟨0, 0⟩ rfl (Nat.le_refl _) rfl)))
  have h := h.step (.second rfl (.moves .empty ⟨0, 0⟩ rfl (.opens .empty ⟨0, 0⟩ rfl rfl)))
  have h := h.step (.second rfl (.moves .empty ⟨0, 0⟩ rfl (.opens .empty ⟨0, 0⟩ rfl rfl)))
  have h := h.step (.second rfl (.moves .empty ⟨0, 0⟩ rfl (.opens .empty ⟨0, 0⟩ rfl rfl)))
  have h := h.step (.second rfl (.moves .empty ⟨0, 0⟩ rfl (.opens .empty ⟨0, 0⟩ rfl rfl)))
  have h := h.step (.second rfl (.moves .empty ⟨0, 0⟩ rfl (.opens .empty ⟨0, 0⟩ rfl rfl)))
  have h := h.step (.second rfl (.moves .empty ⟨0, 0⟩ rfl (.opens .empty ⟨0, 0⟩ rfl rfl)))
  have h := h.step (.second rfl (.moves .empty ⟨0, 0⟩ rfl (.opens .empty ⟨0, 0⟩ rfl rfl)))
  have h := h.step (.second rfl (.emits .empty ⟨0, 0⟩ rfl rfl))
  have h := h.step (.second rfl (.moves .empty ⟨0, 0⟩ rfl (.opens .empty ⟨0, 0⟩ rfl rfl)))
  have h := h.step (.second rfl (.moves .empty ⟨0, 0⟩ rfl
    (.calls .empty ⟨0, 0⟩ rfl rfl (scribes_moves ..).1)))
  have h := h.step (.first rfl (.returns rfl rfl
    (.returns rfl (List.nil_append _).symm (scribes_moves () 0 _).2.2)))
  have h := h.step (.first rfl (.moves .empty ⟨0, 0⟩ rfl (.closes .empty ⟨0, 0⟩ rfl rfl)))
  have h := h.step (.first rfl (.moves .empty ⟨0, 0⟩ rfl (.opens .empty ⟨0, 0⟩ rfl rfl)))
  have h := h.step (.first rfl (.moves .empty ⟨0, 0⟩ rfl (.opens .empty ⟨0, 0⟩ rfl rfl)))
  have h := h.step (.first rfl (.moves .empty ⟨0, 0⟩ rfl (.opens .empty ⟨0, 0⟩ rfl rfl)))
  have h := h.step (.first rfl (.moves .empty ⟨0, 0⟩ rfl (.opens .empty ⟨0, 0⟩ rfl rfl)))
  have h := h.step (.first rfl (.moves .empty ⟨0, 0⟩ rfl (.opens .empty ⟨0, 0⟩ rfl rfl)))
  have h := h.step (.first rfl (.moves .empty ⟨0, 0⟩ rfl (.opens .empty ⟨0, 0⟩ rfl rfl)))
  have h := h.step (.first rfl (.emits .empty ⟨0, 0⟩ rfl rfl))
  have h := h.step (.first rfl (.moves .empty ⟨0, 0⟩ rfl (.opens .empty ⟨0, 0⟩ rfl rfl)))
  have h := h.step (.first rfl (.moves .empty ⟨0, 0⟩ rfl (.opens .empty ⟨0, 0⟩ rfl rfl)))
  have h := h.step (.first rfl (.moves .empty ⟨0, 0⟩ rfl (.finishes .empty ⟨0, 0⟩ rfl rfl)))
  obtain ⟨shipment, hworking, hover⟩ := Shipment.exists_over (Later.shipment h) rfl
  have H := h.trans (later_of_working hworking)
  obtain ⟨hkept, hsure⟩ := Shipment.sure_of_reachable works_gulps (Later.shipment H)
  have hwritten := (hsure.of_isOver hkept hover).1
  obtain ⟨masked, r, hbefore, hr⟩ : ∃ masked r,
      Order.beforeStop shipment.orders = [Record.line masked r] ∧ r.id = "b" := by
    rw [hworking.orders_eq]
    exact ⟨_, _, rfl, rfl⟩
  have hline := hclaim _ H rfl hover _ (.head _) rfl _ (List.mem_append_left _
    (List.mem_append_left _ (List.mem_append_left _ (List.mem_append_right _ (.head _)))))
  obtain ⟨masked', r', hline, hr'⟩ : ∃ masked r,
      Record.line masked r ∈ Rehearsal.Transcript.splitLines shipment.shipper.written ∧
        r.id = "a" := ⟨_, _, hline, rfl⟩
  have hsplit : Rehearsal.Transcript.splitLines shipment.shipper.written = [r.line masked, ""] := by
    refine (congrArg _ (hwritten.trans (congrArg _ hbefore))).trans
      (Delivery.splitLines_flatMap_frame fun line hmem => ?_)
    exact List.mem_singleton.mp hmem ▸ Record.newline_not_mem_line masked r
  rw [hsplit] at hline
  rcases List.mem_cons.mp hline with heq | hmem
  · exact line_ne_of_id hr' hr heq
  · obtain ⟨rest, hrest⟩ := toList_line masked' r'
    rw [List.mem_singleton.mp hmem] at hrest
    cases hrest

end Diaries

end Logbook.Shutdown
