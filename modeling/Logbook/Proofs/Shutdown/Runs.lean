import Logbook.Proofs.Shutdown.Drains

/-! What each run of a sequencer has done up to now: when its hooks were called and returned, and
which stages it opened. Neither depends on what the other runs do. -/

namespace Logbook.Shutdown

variable {η : Type} {P : Surroundings η}

/-! ## Invariants of single runs -/

theorem Drain.Next.settings_eq {masked : Trace.Mask.Registry} {now : Nat} {moment : Moment}
    {d d' : Drain η} {q q' : Sequencer η} {m : Drain.Move η}
    (h : d.Next masked now moment q m d' q') :
    q'.timeout = q.timeout ∧ q'.delay = q.delay ∧ q'.flags = q.flags := by
  cases h <;> exact ⟨rfl, rfl, rfl⟩

namespace Run.Advance

variable {c c' : Scene P} {r r' : Run P}

theorem now_eq (h : r.Advance c c' r') : c'.now = c.now := by cases h <;> rfl

theorem registered_eq (h : r.Advance c c' r') : c'.registered = c.registered := by cases h <;> rfl

theorem settings_eq (h : r.Advance c c' r') :
    c'.sequencer.timeout = c.sequencer.timeout ∧ c'.sequencer.delay = c.sequencer.delay := by
  cases h with
  | start | miss | proceeds | returns | panics => exact ⟨rfl, rfl⟩
  | opens _ _ _ h | calls _ _ _ h | closes _ _ _ h | emits _ _ _ h | finishes _ _ _ h =>
    exact ⟨(Drain.next_of_step h).settings_eq.1, (Drain.next_of_step h).settings_eq.2.1⟩

/-- A run that is over makes no moves. -/
theorem not_isOver (h : r.Advance c c' r') : ¬ r.IsOver := by
  intro hover
  cases h with
  | start _ _ _ course | miss _ _ _ course | opens _ _ course | calls _ _ course
  | proceeds _ course | returns course | panics course | closes _ _ course | emits _ _ course
  | finishes _ _ course =>
    rcases hover with ⟨_, course'⟩ | ⟨_, course'⟩ <;> cases course.symm.trans course'

end Run.Advance

namespace Drains

variable {timeout : Nat} {delay : Option Nat} {state : P.State} {s t : Drains P}

theorem Step.settings_eq (h : Step s t) :
    t.sequencer.timeout = s.sequencer.timeout ∧ t.sequencer.delay = s.sequencer.delay := by
  cases h with
  | advance _ h => exact h.settings_eq
  | _ => exact ⟨rfl, rfl⟩

theorem Reachable.settings_eq (h : Reachable timeout delay state s) :
    s.sequencer.timeout = timeout ∧ s.sequencer.delay = delay :=
  Later.keeps (Q := fun s => s.sequencer.timeout = timeout ∧ s.sequencer.delay = delay)
    (fun hs h => ⟨h.settings_eq.1.trans hs.1, h.settings_eq.2.trans hs.2⟩) h ⟨rfl, rfl⟩

/-- What holds of a run when it begins, after each of its moves, and when time goes by, holds of all
runs. -/
theorem Reachable.all_runs {Q : Nat → Run P → Prop} (h : Reachable timeout delay state s)
    (begins : ∀ now, Q now ⟨now, .delaying (now + delay.getD 0), [], [], 0⟩)
    (advances : ∀ {c c' : Scene P} {r r' : Run P}, c.sequencer.timeout = timeout → Q c.now r →
      r.Advance c c' r' → Q c.now r')
    (waits : ∀ {c : Scene P} {r : Run P}, Q c.now r → r.Waits c → Q (c.now + 1) r) :
    ∀ r ∈ s.runs, Q s.now r := by
  induction h with
  | refl => exact fun r hr => nomatch hr
  | step H h ih =>
    have hset := Reachable.settings_eq H
    cases h with
    | register | works => exact ih
    | begin =>
      intro r hr
      rcases List.mem_append.mp hr with hr | hr
      · exact ih r hr
      · rw [List.mem_singleton.mp hr, hset.2]
        exact begins _
    | advance hruns h =>
      rw [hruns] at ih
      intro r hr
      rw [show Scene.now _ = _ from h.now_eq]
      rcases mem_between.mp hr with rfl | hr
      · exact advances hset.1 (ih _ (mem_between.mpr (.inl rfl))) h
      · exact ih r (mem_between.mpr (.inr hr))
    | tick hwaits => exact fun r hr => waits (ih r hr) (hwaits r hr)

end Drains

/-! ## Calls and returns -/

/-- The calls of a run whose stages began at a time. Each hook is called as soon as the run is free,
which at the end it is at the time `t`. -/
inductive Elapsed (start deadline : Nat) : List (Call η) → Nat → Prop where
  | nil : Elapsed start deadline [] start
  | snoc {calls : List (Call η)} {called t : Nat} (H : Elapsed start deadline calls called)
      (e : Entry η) (h : called ≤ t) :
      Elapsed start deadline (calls ++ [⟨e, budget deadline called, called, some t⟩]) t

theorem Elapsed.returned {start deadline t : Nat} {calls : List (Call η)}
    (H : Elapsed start deadline calls t) : ∀ k ∈ calls, ∃ u, k.returned = some u ∧ u ≤ t := by
  induction H with
  | nil => exact fun k hk => nomatch hk
  | snoc _ e h ih =>
    intro k hk
    rcases List.mem_append.mp hk with hk | hk
    · obtain ⟨u, hu, hle⟩ := ih k hk
      exact ⟨u, hu, Nat.le_trans hle h⟩
    · exact ⟨_, by rw [List.mem_singleton.mp hk], Nat.le_refl _⟩

/-- One hook returns before the next one is called. -/
def Call.Ends (k l : Call η) : Prop := ∃ t, k.returned = some t ∧ t ≤ l.called

theorem Elapsed.pairwise_snoc {start deadline t : Nat} {calls : List (Call η)}
    (H : Elapsed start deadline calls t) {k : Call η} (hk : k.called = t)
    (hcalls : calls.Pairwise Call.Ends) : (calls ++ [k]).Pairwise Call.Ends := by
  refine List.pairwise_append.mpr ⟨hcalls, List.pairwise_singleton .., fun l hl k' hk' => ?_⟩
  obtain rfl := List.mem_singleton.mp hk'
  obtain ⟨t, ht, hle⟩ := H.returned l hl
  exact ⟨t, ht, hk ▸ hle⟩

theorem Elapsed.pairwise {start deadline t : Nat} {calls : List (Call η)}
    (H : Elapsed start deadline calls t) : calls.Pairwise Call.Ends := by
  induction H with
  | nil => exact .nil
  | snoc H _ _ ih => exact H.pairwise_snoc rfl ih

namespace Run

/-- The times of a run. Its delay ends as it should, its deadline is fixed from there, and it lets
no time go by between its calls. -/
inductive Timed (timeout delay now : Nat) (r : Run P) : Prop where
  | delaying (course : r.course = .delaying (r.began + delay)) (hcalls : r.calls = [])
      (h : now ≤ r.began + delay)
  | missed (course : r.course = .failed []) (hcalls : r.calls = [])
  | moving {d : Drain (Entry η)} (course : r.course = .moving d)
      (deadline : d.deadline = r.began + delay + timeout)
      (elapsed : Elapsed (r.began + delay) d.deadline r.calls now)
  | calling {d : Drain (Entry η)} {active : P.Active} {calls : List (Call η)} {e : Entry η}
      {called : Nat} (course : r.course = .calling d active)
      (deadline : d.deadline = r.began + delay + timeout)
      (hcalls : r.calls = calls ++ [⟨e, budget d.deadline called, called, none⟩])
      (elapsed : Elapsed (r.began + delay) d.deadline calls called) (h : called ≤ now)
  | panicked {dropped : List (Entry η)} {calls : List (Call η)} {e : Entry η} {called : Nat}
      (course : r.course = .failed dropped)
      (hcalls : r.calls =
        calls ++ [⟨e, budget (r.began + delay + timeout) called, called, none⟩])
      (elapsed : Elapsed (r.began + delay) (r.began + delay + timeout) calls called)
  | finished {t : Nat} (course : r.course = .finished t)
      (elapsed : Elapsed (r.began + delay) (r.began + delay + timeout) r.calls t)

variable {c c' : Scene P} {r r' : Run P} {timeout delay now : Nat}

theorem Timed.of_moving {d : Drain (Entry η)} (h : r.Timed timeout delay now)
    (course : r.course = .moving d) : d.deadline = r.began + delay + timeout ∧
      Elapsed (r.began + delay) d.deadline r.calls now := by
  cases h with
  | moving course' deadline elapsed => cases course.symm.trans course'; exact ⟨deadline, elapsed⟩
  | delaying course' | missed course' | calling course' | panicked course' | finished course' =>
    cases course.symm.trans course'

theorem Timed.of_calling {d : Drain (Entry η)} {active : P.Active} (h : r.Timed timeout delay now)
    (course : r.course = .calling d active) : d.deadline = r.began + delay + timeout ∧
      ∃ calls e called, r.calls = calls ++ [⟨e, budget d.deadline called, called, none⟩] ∧
        Elapsed (r.began + delay) d.deadline calls called ∧ called ≤ now := by
  cases h with
  | calling course' deadline hcalls elapsed h =>
    cases course.symm.trans course'; exact ⟨deadline, _, _, _, hcalls, elapsed, h⟩
  | delaying course' | missed course' | moving course' | panicked course' | finished course' =>
    cases course.symm.trans course'

theorem Timed.advance (hr : r.Timed timeout delay c.now) (htimeout : c.sequencer.timeout = timeout)
    (h : r.Advance c c' r') : r'.Timed timeout delay c.now := by
  cases h with
  | start masked id moment course hdue h =>
    cases hr with
    | delaying course' hcalls hle =>
      cases course.symm.trans course'
      have hnow : c.now = r.began + delay := Nat.le_antisymm hle hdue
      simp only [Drain.start?, later?, Option.map_if, Option.ite_none_right_eq_some,
        Option.some.injEq] at h
      obtain ⟨-, rfl⟩ := h
      refine .moving rfl (by rw [hnow, htimeout]) ?_
      rw [hnow, hcalls]
      exact .nil
    | missed course' | moving course' | calling course' | panicked course' | finished course' =>
      cases course.symm.trans course'
  | miss masked id moment course =>
    cases hr with
    | delaying _ hcalls => exact .missed rfl hcalls
    | missed course' | moving course' | calling course' | panicked course' | finished course' =>
      cases course.symm.trans course'
  | opens masked moment course h =>
    obtain ⟨deadline, elapsed⟩ := hr.of_moving course
    cases Drain.next_of_step h
    exact .moving rfl deadline elapsed
  | calls masked moment course h =>
    obtain ⟨deadline, elapsed⟩ := hr.of_moving course
    cases Drain.next_of_step h
    exact .calling rfl deadline rfl elapsed (Nat.le_refl _)
  | proceeds f course hcalls =>
    obtain ⟨deadline, _, _, _, hcalls', elapsed, hle⟩ := hr.of_calling course
    exact .calling rfl deadline hcalls' elapsed hle
  | returns course hcalls =>
    obtain ⟨deadline, _, _, _, hcalls', elapsed, hle⟩ := hr.of_calling course
    obtain ⟨rfl, rfl⟩ := List.append_singleton_inj.mp (hcalls.symm.trans hcalls')
    exact .moving rfl deadline (elapsed.snoc _ hle)
  | panics course hcalls =>
    obtain ⟨deadline, _, _, _, hcalls', elapsed, hle⟩ := hr.of_calling course
    rw [deadline] at hcalls' elapsed
    exact .panicked rfl hcalls' elapsed
  | closes masked moment course h =>
    obtain ⟨deadline, elapsed⟩ := hr.of_moving course
    cases Drain.next_of_step h
    exact .moving rfl deadline elapsed
  | emits masked moment course h =>
    obtain ⟨deadline, elapsed⟩ := hr.of_moving course
    cases Drain.next_of_step h
    exact .moving rfl deadline elapsed
  | finishes masked moment course h =>
    obtain ⟨deadline, elapsed⟩ := hr.of_moving course
    exact .finished rfl (deadline ▸ elapsed)

theorem Timed.wait (hr : r.Timed timeout delay c.now) (h : r.Waits c) :
    r.Timed timeout delay (c.now + 1) := by
  cases hr with
  | delaying course hcalls hle =>
    cases h with
    | delaying course' h => cases course.symm.trans course'; exact .delaying course hcalls h
    | calling course' => cases course.symm.trans course'
    | ended h =>
      rcases h with ⟨_, course'⟩ | ⟨_, course'⟩ <;> cases course.symm.trans course'
  | missed course hcalls => exact .missed course hcalls
  | moving course =>
    cases h with
    | delaying course' | calling course' => cases course.symm.trans course'
    | ended h =>
      rcases h with ⟨_, course'⟩ | ⟨_, course'⟩ <;> cases course.symm.trans course'
  | calling course deadline hcalls elapsed hle =>
    exact .calling course deadline hcalls elapsed (Nat.le_succ_of_le hle)
  | panicked course hcalls elapsed => exact .panicked course hcalls elapsed
  | finished course elapsed => exact .finished course elapsed

theorem Timed.pairwise (hr : r.Timed timeout delay now) : r.calls.Pairwise Call.Ends := by
  cases hr with
  | delaying _ hcalls | missed _ hcalls => exact hcalls ▸ .nil
  | moving _ _ elapsed | finished _ elapsed => exact elapsed.pairwise
  | calling _ _ hcalls elapsed | panicked _ hcalls elapsed =>
    exact hcalls ▸ elapsed.pairwise_snoc rfl elapsed.pairwise

end Run

theorem Drains.Reachable.timed {timeout : Nat} {delay : Option Nat} {state : P.State} {s : Drains P}
    (h : Reachable timeout delay state s) : ∀ r ∈ s.runs, r.Timed timeout (delay.getD 0) s.now :=
  h.all_runs (Q := fun now r => r.Timed timeout (delay.getD 0) now)
    (fun _ => .delaying rfl rfl (Nat.le_add_right ..)) (fun htimeout hr h => hr.advance htimeout h)
    Run.Timed.wait

/-- A run that makes its next move has no call left open. -/
theorem Drains.Reachable.returned {timeout : Nat} {delay : Option Nat} {state : P.State}
    {s : Drains P} (h : Reachable timeout delay state s) {r : Run P} (hr : r ∈ s.runs)
    {d : Drain (Entry η)} (course : r.course = .moving d) :
    ∀ k ∈ r.calls, k.returned.isSome = true := by
  intro k hk
  obtain ⟨t, ht, -⟩ := ((h.timed r hr).of_moving course).2.returned k hk
  exact ht ▸ rfl

/-! ## Flags -/

/-- After a move the delay of the run is over, and so the second flag is set. -/
theorem Run.Advance.flags_cases {c c' : Scene P} {r r' : Run P} (h : r.Advance c c' r') :
    (∀ due, r'.course ≠ .delaying due) ∧
      (c'.sequencer.flags = c.sequencer.flags ∧ (∀ due, r.course ≠ .delaying due) ∨
        c'.sequencer.flags = { c.sequencer.flags with afterDelay := true }) := by
  cases h with
  | start | miss => exact ⟨nofun, .inr rfl⟩
  | proceeds _ course | returns course | panics course =>
    exact ⟨nofun, .inl ⟨rfl, fun _ course' => nomatch course.symm.trans course'⟩⟩
  | opens _ _ course h | calls _ _ course h | closes _ _ course h | emits _ _ course h
  | finishes _ _ course h =>
    exact ⟨nofun, .inl ⟨(Drain.next_of_step h).settings_eq.2.2,
      fun _ course' => nomatch course.symm.trans course'⟩⟩

namespace Drains

variable {timeout : Nat} {delay : Option Nat} {state : P.State} {s t : Drains P}

/-- The first flag tells of a run, the second one of a run whose delay is over. -/
structure Flagged (s : Drains P) : Prop where
  shutdown : s.sequencer.flags.shutdown = true ↔ s.runs ≠ []
  afterDelay : s.sequencer.flags.afterDelay = true ↔
    ∃ r ∈ s.runs, ∀ due, r.course ≠ .delaying due

theorem Flagged.step (hs : s.Flagged) (h : Step s t) : t.Flagged := by
  cases h with
  | register | works | tick => exact ⟨hs.shutdown, hs.afterDelay⟩
  | begin =>
    refine ⟨⟨fun _ => ?_, fun _ => rfl⟩, ?_⟩
    · exact List.append_ne_nil_of_right_ne_nil _ (List.cons_ne_nil _ _)
    refine hs.afterDelay.trans ⟨fun ⟨r, hr, h⟩ => ⟨r, List.mem_append_left _ hr, h⟩, ?_⟩
    rintro ⟨r, hr, h⟩
    rcases List.mem_append.mp hr with hr | hr
    · exact ⟨r, hr, h⟩
    · rw [List.mem_singleton.mp hr] at h
      exact absurd rfl (h _)
  | @advance before after r r' c hruns h =>
    obtain ⟨hpast, hflags⟩ := h.flags_cases
    have hbusy : s.sequencer.flags.shutdown = true := hs.shutdown.mpr (by simp [hruns])
    refine ⟨⟨fun _ => by simp, fun _ => ?_⟩,
      ⟨fun _ => ⟨r', mem_between.mpr (.inl rfl), hpast⟩, fun _ => ?_⟩⟩
    · rcases hflags with ⟨hflags, -⟩ | hflags <;> rw [hflags] <;> exact hbusy
    · rcases hflags with ⟨hflags, hwas⟩ | hflags <;> rw [hflags]
      exact hs.afterDelay.mpr ⟨r, hruns ▸ mem_between.mpr (.inl rfl), hwas⟩

theorem flagged_start (P : Surroundings η) (timeout : Nat) (delay : Option Nat) (state : P.State) :
    (start P timeout delay state).Flagged :=
  ⟨⟨nofun, fun h => absurd rfl h⟩, ⟨nofun, fun ⟨_, hr, _⟩ => nomatch hr⟩⟩

/-- Once the delay of a run is over, this is so for ever. -/
theorem Step.afterDelay (h : Step s t) (hs : s.sequencer.flags.afterDelay = true) :
    t.sequencer.flags.afterDelay = true := by
  cases h with
  | register | works | tick | begin => exact hs
  | advance hruns h =>
    rcases h.flags_cases.2 with ⟨hflags, -⟩ | hflags <;> rw [hflags]
    exact hs

end Drains

end Logbook.Shutdown
