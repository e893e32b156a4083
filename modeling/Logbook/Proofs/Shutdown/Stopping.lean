import Logbook.Proofs.Shutdown.StopRecord

/-! What the runs of a sequencer do about the record of the stop. Before the record is emitted a run
calls hooks of the stages inside of it, and each of them returns; after that it calls hooks of the
stages behind it. -/

namespace Logbook.Shutdown

variable {η : Type}

/-! ## Deeds around the record -/

/-- Each hook that was called has returned before anything else was done. -/
inductive Settled : List (Deed η) → Prop where
  | nil : Settled []
  | hook {deeds : List (Deed η)} (H : Settled deeds) (e : Entry η)
      (writes : List Trace.Scope.Write) :
      Settled (deeds ++ .called e :: writes.map .wrote ++ [.returned])
  | closed {deeds : List (Deed η)} (H : Settled deeds) (stage : Stage) (hooks millis : Nat) :
      Settled (deeds ++ [.closed stage hooks millis])
  | emitted {deeds : List (Deed η)} (H : Settled deeds) (e : Record.Emission) :
      Settled (deeds ++ [.emitted e])

/-- Deeds that emit nothing, and call hooks on one side of the record only. -/
structure Quiet (recorded : Bool) (deeds : List (Deed η)) : Prop where
  silent : ∀ e, .emitted e ∉ deeds
  stages : ∀ x, .called x ∈ deeds → x.stage.isRecorded = recorded

/-- The emission of the record of the stop, after the deeds that it tells of. -/
structure StopLine (timeout : Nat) (deeds : List (Deed η)) (e : Record.Emission) : Prop where
  settled : Settled deeds
  quiet : Quiet true deeds
  line : ∃ r masked masked' now,
    Describes masked timeout deeds r ∧ e = ⟨(r.finish now).line masked', .ok⟩

/-- The deeds of a run before its record was emitted, or both before and after it. -/
inductive Divided (timeout : Nat) : List (Deed η) → Prop where
  | before {deeds : List (Deed η)} (h : Quiet true deeds) : Divided timeout deeds
  | after {before after : List (Deed η)} {e : Record.Emission} (stop : StopLine timeout before e)
      (h : Quiet false after) : Divided timeout (before ++ .emitted e :: after)

variable {recorded : Bool} {timeout : Nat} {deeds new : List (Deed η)}

theorem Quiet.nil : Quiet recorded ([] : List (Deed η)) := ⟨nofun, nofun⟩

theorem Quiet.append (h : Quiet recorded deeds) (hnew : Quiet recorded new) :
    Quiet recorded (deeds ++ new) where
  silent e he := (List.mem_append.mp he).elim (h.silent e) (hnew.silent e)
  stages x hx := (List.mem_append.mp hx).elim (h.stages x) (hnew.stages x)

/-! ## Drains and the record -/

/-- A drain writes into the record until the stage comes that stops the log shipping; then it has
emitted the record, and its hooks write nowhere. -/
inductive Drain.Phase (timeout : Nat) (d : Drain (Entry η)) : List (Deed η) → Prop where
  | recording {deeds : List (Deed η)} (masked : Trace.Mask.Registry) (id : String) (moment : Moment)
      (carrier : d.carrier = .record (stopRecord masked id moment timeout deeds))
      (h : Quiet true deeds)
      (current : ∀ entered, d.current = some entered → entered.stage.isRecorded = true)
      (upcoming : .stopLogShipping ∈ d.upcoming) : Phase timeout d deeds
  | emitted {before after : List (Deed η)} {e : Record.Emission}
      (stop : StopLine timeout before e) (carrier : ∃ scope, d.carrier = .detached scope)
      (h : Quiet false after)
      (current : ∀ entered, d.current = some entered → entered.stage.isRecorded = false)
      (upcoming : ∀ stage ∈ d.upcoming, stage.isRecorded = false) :
      Phase timeout d (before ++ .emitted e :: after)

namespace Drain.Phase

variable {d d' : Drain (Entry η)} {q : Sequencer (Entry η)} {entered : OpenStage (Entry η)}
  {stage : Stage} {later : List Stage}

theorem divided (h : d.Phase timeout deeds) : Divided timeout deeds := by
  cases h with
  | recording _ _ _ _ h => exact .before h
  | emitted stop _ h => exact .after stop h

/-- Deeds that emit nothing, and the writes that they are. -/
theorem keep (h : d.Phase timeout deeds)
    (hnew : ∀ recorded,
      (∀ entered, d.current = some entered → entered.stage.isRecorded = recorded) →
      Quiet recorded new)
    (hcarrier : d'.carrier = d.carrier.modify (·.writeAll (new.flatMap Deed.writes)))
    (hcurrent : ∀ entered', d'.current = some entered' → ∃ entered, d.current = some entered ∧
      entered.stage = entered'.stage)
    (hupcoming : d'.upcoming = d.upcoming) : d'.Phase timeout (deeds ++ new) := by
  have hcurrent' {recorded : Bool}
      (current : ∀ entered, d.current = some entered → entered.stage.isRecorded = recorded) :
      ∀ entered, d'.current = some entered → entered.stage.isRecorded = recorded := by
    intro entered' hentered'
    obtain ⟨entered, hentered, hstage⟩ := hcurrent entered' hentered'
    exact hstage ▸ current entered hentered
  cases h with
  | recording masked id moment carrier h current upcoming =>
    refine .recording masked id moment ?_ (h.append (hnew _ current)) (hcurrent' current)
      (hupcoming ▸ upcoming)
    rw [hcarrier, carrier, stopRecord_append]
    rfl
  | emitted stop carrier h current upcoming =>
    rw [List.append_assoc, List.cons_append]
    obtain ⟨scope, carrier⟩ := carrier
    refine .emitted stop ⟨scope.writeAll (new.flatMap Deed.writes), ?_⟩
      (h.append (hnew _ current)) (hcurrent' current) (hupcoming ▸ upcoming)
    rw [hcarrier, carrier]
    rfl

theorem modify_writeAll_nil (c : Carrier) : c.modify (·.writeAll []) = c := by
  cases c <;> rfl

theorem call (h : d.Phase timeout deeds) {e : Entry η} {rest : List (Entry η)}
    (current : d.current = some entered) (hstage : e.stage = entered.stage) :
    Drain.Phase timeout { d with current := some { entered with rest := rest } }
      (deeds ++ [.called e]) := by
  refine h.keep (fun recorded hrecorded => ⟨by simp, fun x hx => ?_⟩)
    (modify_writeAll_nil _).symm ?_ rfl
  · obtain rfl : x = e := by simpa using hx
    exact hstage ▸ hrecorded entered current
  · rintro _ ⟨rfl⟩
    exact ⟨entered, current, rfl⟩

theorem close (h : d.Phase timeout deeds) (entered : OpenStage (Entry η)) (now : Nat) :
    (d.closeStage now entered).Phase timeout
      (deeds ++ [.closed entered.stage entered.count (now - entered.opened)]) := by
  refine h.keep (fun recorded _ => ⟨by simp, by simp⟩) ?_ nofun rfl
  cases h : d.carrier <;> simp only [Drain.closeStage, h] <;> rfl

theorem openStage (h : d.Phase timeout deeds) (upcoming : d.upcoming = stage :: later)
    (hopen : stage.isRecorded = true ∨ ∃ scope, d.carrier = .detached scope) (now : Nat) :
    (d.openStage now stage later q).1.Phase timeout deeds := by
  have hstage {entered : OpenStage (Entry η)}
      (hentered : (d.openStage now stage later q).1.current = some entered) :
      entered.stage = stage := by
    simp only [Drain.openStage, Option.ite_none_left_eq_some, Option.some.injEq] at hentered
    exact hentered.2 ▸ rfl
  cases h with
  | recording masked id moment carrier h _ ahead =>
    have hrecorded : stage.isRecorded = true := by
      rcases hopen with h | ⟨scope, h⟩
      · exact h
      · cases carrier.symm.trans h
    refine .recording masked id moment carrier h
      (fun entered hentered => hstage hentered ▸ hrecorded) ?_
    rw [upcoming] at ahead
    refine (List.mem_cons.mp ahead).resolve_left fun heq => ?_
    rw [← heq] at hrecorded
    cases hrecorded
  | emitted stop carrier h _ behind =>
    rw [upcoming] at behind
    exact .emitted stop carrier h
      (fun entered hentered => hstage hentered ▸ behind stage (.head _))
      fun k hk => behind k (.tail _ hk)

/-- The record is emitted with all that the stages inside of it have left. -/
theorem emit (h : d.Phase timeout deeds) (htallies : d.Tallies deeds) (hsettled : Settled deeds)
    (current : d.current = none) (upcoming : d.upcoming = stage :: later)
    (hrecorded : stage.isRecorded = false) {r : Record} (carrier : d.carrier = .record r)
    (masked : Trace.Mask.Registry) (moment : Moment) :
    ∃ e, (r.emit masked moment).1 = some e ∧ StopLine timeout deeds e ∧
      Drain.Phase timeout { d with carrier := .detached .detached } (deeds ++ [.emitted e]) := by
  cases h with
  | recording masked' id moment' carrier' h =>
    obtain rfl := Carrier.record.inj (carrier.symm.trans carrier')
    obtain ⟨passed, hpassed⟩ := htallies.ahead
    have hbehind : ∀ k ∈ d.upcoming, k.isRecorded = false := by
      refine fun k hk => Bool.eq_false_iff.mpr fun hk' => ?_
      rw [upcoming] at hk hpassed
      cases hrecorded.symm.trans (Stage.isRecorded_of_mem hpassed hk hk')
    have hdescribes : Describes masked' timeout deeds
        (stopRecord masked' id moment' timeout deeds) :=
      describes_stopRecord (htallies.closed_of_none current)
    have hstop := StopLine.mk hsettled h ⟨_, _, masked, moment, hdescribes, rfl⟩
    refine ⟨_, rfl, hstop, .emitted hstop ⟨_, rfl⟩ .nil ?_ hbehind⟩
    exact fun _ hentered => nomatch current.symm.trans hentered
  | emitted _ carrier' =>
    obtain ⟨scope, carrier'⟩ := carrier'
    cases carrier.symm.trans carrier'

end Drain.Phase

/-! ## Runs and the record -/

/-- The deeds of a run that has come to its end. -/
structure Ended (timeout : Nat) (deeds : List (Deed η)) : Prop where
  settled : Settled deeds
  closed (stage : Stage) : Closed stage deeds
  emitted : ∃ before e after, deeds = before ++ .emitted e :: after ∧
    StopLine timeout before e ∧ Quiet false after

variable {P : Surroundings η}

/-- A run and its deeds, by the place where it stands. -/
inductive Diary.Sound (timeout : Nat) (t : Diary P) : Prop where
  | delaying {due : Nat} (course : t.run.course = .delaying due) (hdeeds : t.deeds = [])
  | moving {d : Drain (Entry η)} (course : t.run.course = .moving d)
      (phase : d.Phase timeout t.deeds) (tallies : d.Tallies t.deeds) (settled : Settled t.deeds)
  | calling {d : Drain (Entry η)} {active : P.Active} {deeds : List (Deed η)} {e : Entry η}
      {writes : List Trace.Scope.Write} (course : t.run.course = .calling d active)
      (phase : d.Phase timeout t.deeds) (tallies : d.Tallies t.deeds)
      (hdeeds : t.deeds = deeds ++ .called e :: writes.map .wrote) (settled : Settled deeds)
  | failed {dropped : List (Entry η)} (course : t.run.course = .failed dropped)
      (divided : Divided timeout t.deeds)
  | finished {time : Nat} (course : t.run.course = .finished time) (ended : Ended timeout t.deeds)

namespace Diary.Sound

variable {t : Diary P} {c c' : Scene P} {r : Run P} {d : Drain (Entry η)}

theorem of_delaying {due : Nat} (h : t.Sound timeout) (course : t.run.course = .delaying due) :
    t.deeds = [] := by
  cases h with
  | delaying _ hdeeds => exact hdeeds
  | moving course' | calling course' | failed course' | finished course' =>
    cases course.symm.trans course'

theorem of_moving (h : t.Sound timeout) (course : t.run.course = .moving d) :
    d.Phase timeout t.deeds ∧ d.Tallies t.deeds ∧ Settled t.deeds := by
  cases h with
  | moving course' phase tallies settled =>
    cases course.symm.trans course'
    exact ⟨phase, tallies, settled⟩
  | delaying course' | calling course' | failed course' | finished course' =>
    cases course.symm.trans course'

theorem of_calling {active : P.Active} (h : t.Sound timeout)
    (course : t.run.course = .calling d active) : d.Phase timeout t.deeds ∧ d.Tallies t.deeds ∧
      ∃ (deeds : List (Deed η)) (e : Entry η) (writes : List Trace.Scope.Write),
        t.deeds = deeds ++ .called e :: writes.map .wrote ∧ Settled deeds := by
  cases h with
  | calling course' phase tallies hdeeds settled =>
    cases course.symm.trans course'
    exact ⟨phase, tallies, _, _, _, hdeeds, settled⟩
  | delaying course' | moving course' | failed course' | finished course' =>
    cases course.symm.trans course'

theorem divided (h : t.Sound timeout) : Divided timeout t.deeds := by
  cases h with
  | delaying _ hdeeds => exact hdeeds ▸ .before .nil
  | moving _ phase | calling _ phase => exact phase.divided
  | failed _ divided => exact divided
  | finished _ ended =>
    obtain ⟨before, e, after, hdeeds, stop, h⟩ := ended.emitted
    exact hdeeds ▸ .after stop h

theorem ended_of_finished {time : Nat} (h : t.Sound timeout)
    (course : t.run.course = .finished time) : Ended timeout t.deeds := by
  cases h with
  | finished _ ended => exact ended
  | delaying course' | moving course' | calling course' | failed course' =>
    cases course.symm.trans course'

/-- A run that finds no stage ahead has emitted its record. -/
theorem ended (phase : d.Phase timeout deeds) (tallies : d.Tallies deeds)
    (settled : Settled deeds) (current : d.current = none) (upcoming : d.upcoming = []) :
    Ended timeout deeds where
  settled := settled
  closed := tallies.closed_of_none current
  emitted := by
    cases phase with
    | recording _ _ _ _ _ _ ahead =>
      rw [upcoming] at ahead
      cases ahead
    | emitted stop _ h => exact ⟨_, _, _, rfl, stop, h⟩

theorem does (ht : t.Sound timeout)
    (hhooks : ∀ stage, ∀ e ∈ c.sequencer.hooks stage, e.stage = stage)
    (htimeout : c.sequencer.timeout = timeout) (h : t.run.Does c new c' r) :
    Diary.Sound timeout ⟨r, t.deeds ++ new⟩ := by
  cases h.turn.1 with
  | started masked id moment course hstart course' =>
    simp only [Drain.start?, Option.map_eq_some_iff] at hstart
    obtain ⟨deadline, -, rfl⟩ := hstart
    rw [ht.of_delaying course]
    exact .moving course' (.recording masked id moment (by rw [htimeout]; rfl) .nil
      (fun _ h => by cases h) (Stage.mem_all _)) (.start ..) .nil
  | missed course course' =>
    rw [ht.of_delaying course]
    exact .failed course' (.before .nil)
  | opened course current upcoming hopen course' =>
    obtain ⟨phase, tallies, settled⟩ := ht.of_moving course
    rw [List.append_nil]
    exact .moving course' (phase.openStage upcoming hopen _)
      (tallies.openStage current upcoming (hhooks _) _) settled
  | called course current hrest course' =>
    obtain ⟨phase, tallies, settled⟩ := ht.of_moving course
    obtain ⟨hstage, tallies⟩ := tallies.call current hrest
    exact @calling _ _ _ _ _ _ _ _ [] course' (phase.call current hstage) tallies rfl settled
  | wrote w course course' =>
    obtain ⟨phase, tallies, deeds, e, writes, hdeeds, settled⟩ := ht.of_calling course
    have hdeeds' : t.deeds ++ [.wrote w] = deeds ++ .called e :: (writes ++ [w]).map .wrote := by
      rw [hdeeds, List.append_assoc, List.cons_append, List.map_append, List.map_singleton]
    exact .calling course'
      (phase.keep (fun _ _ => ⟨by simp, by simp⟩) rfl (fun entered h => ⟨entered, h, rfl⟩) rfl)
      (tallies.keep rfl rfl (fun _ => rfl) fun _ => rfl) hdeeds' settled
  | wentOn course course' =>
    obtain ⟨phase, tallies, _, _, _, hdeeds, settled⟩ := ht.of_calling course
    rw [List.append_nil]
    exact .calling course' phase tallies hdeeds settled
  | returned course course' =>
    obtain ⟨phase, tallies, _, e, writes, hdeeds, settled⟩ := ht.of_calling course
    exact .moving course' (phase.keep (fun _ _ => ⟨by simp, by simp⟩)
      (Drain.Phase.modify_writeAll_nil _).symm (fun entered h => ⟨entered, h, rfl⟩) rfl)
      (tallies.keep rfl rfl (fun _ => rfl) fun _ => rfl) (hdeeds ▸ settled.hook e writes)
  | panicked course course' =>
    rw [List.append_nil]
    exact .failed course' (ht.of_calling course).1.divided
  | closed course current hrest course' =>
    obtain ⟨phase, tallies, settled⟩ := ht.of_moving course
    exact .moving course' (phase.close ..) (tallies.close current hrest ..) (settled.closed ..)
  | emitted masked moment course current upcoming hrecorded carrier course' =>
    obtain ⟨phase, tallies, settled⟩ := ht.of_moving course
    obtain ⟨e, he, -, phase⟩ :=
      phase.emit tallies settled current upcoming hrecorded carrier masked moment
    rw [he]
    exact .moving course' phase (tallies.keep rfl rfl (fun _ => rfl) fun _ => rfl)
      (settled.emitted e)
  | finished course current upcoming course' =>
    obtain ⟨phase, tallies, settled⟩ := ht.of_moving course
    rw [List.append_nil]
    exact .finished course' (ended phase tallies settled current upcoming)

end Diary.Sound

end Logbook.Shutdown
