import Logbook.Proofs.Shutdown.Runs

/-! The budgets and the flags of a drain. A run sets the first flag when it begins and the second
one at the end of its delay, from where its deadline counts. What is left until then falls from call
to call, whatever the hooks do, and stays between the least budget and the timeout. -/

namespace Logbook.Shutdown

variable {η : Type} {P : Surroundings η}

/-! ## What is left -/

theorem minBudget_le_budget (deadline now : Nat) : minBudget ≤ budget deadline now :=
  Nat.le_max_right ..

/-- The budget falls as time goes by. -/
theorem budget_le_budget {m n : Nat} (h : m ≤ n) (deadline : Nat) :
    budget deadline n ≤ budget deadline m := by
  rw [budget, budget]
  omega

/-- Behind the beginning of the stages no more than the timeout is left. -/
theorem budget_le_timeout {begun now : Nat} (h : begun ≤ now) (timeout : Nat) :
    budget (begun + timeout) now ≤ max timeout minBudget := by
  rw [budget]
  omega

/-- Calls behind the beginning of the stages, one after the other, each with what was left. -/
structure Budgeted (begun deadline : Nat) (calls : List (Call η)) : Prop where
  begun_le : ∀ k ∈ calls, begun ≤ k.called
  budget_eq : ∀ k ∈ calls, k.budget = budget deadline k.called
  ordered : calls.Pairwise fun k l => k.called ≤ l.called

theorem budgeted_nil (begun deadline : Nat) : Budgeted begun deadline ([] : List (Call η)) :=
  ⟨nofun, nofun, .nil⟩

theorem Budgeted.snoc {begun deadline now : Nat} {calls : List (Call η)}
    (H : Budgeted begun deadline calls) (hbegun : begun ≤ now) (hnow : ∀ k ∈ calls, k.called ≤ now)
    (e : Entry η) (returned : Option Nat) :
    Budgeted begun deadline (calls ++ [⟨e, budget deadline now, now, returned⟩]) where
  begun_le k hk := by
    rcases List.mem_append.mp hk with hk | hk
    · exact H.begun_le k hk
    · exact List.mem_singleton.mp hk ▸ hbegun
  budget_eq k hk := by
    rcases List.mem_append.mp hk with hk | hk
    · exact H.budget_eq k hk
    · rw [List.mem_singleton.mp hk]
  ordered := by
    refine List.pairwise_append.mpr ⟨H.ordered, List.pairwise_singleton .., fun k hk l hl => ?_⟩
    exact List.mem_singleton.mp hl ▸ hnow k hk

/-- Calls that follow one another without a pause. -/
theorem Elapsed.budgeted {begun deadline t : Nat} {calls : List (Call η)}
    (H : Elapsed begun deadline calls t) :
    Budgeted begun deadline calls ∧ begun ≤ t ∧ ∀ k ∈ calls, k.called ≤ t := by
  induction H with
  | nil => exact ⟨budgeted_nil .., Nat.le_refl _, nofun⟩
  | snoc _ e h ih =>
    obtain ⟨budgeted, hbegun, hcalled⟩ := ih
    refine ⟨budgeted.snoc hbegun hcalled e _, Nat.le_trans hbegun h, fun k hk => ?_⟩
    rcases List.mem_append.mp hk with hk | hk
    · exact Nat.le_trans (hcalled k hk) h
    · exact List.mem_singleton.mp hk ▸ h

theorem Elapsed.budgeted_snoc {begun deadline t : Nat} {calls : List (Call η)}
    (H : Elapsed begun deadline calls t) (e : Entry η) (returned : Option Nat) :
    Budgeted begun deadline (calls ++ [⟨e, budget deadline t, t, returned⟩]) :=
  H.budgeted.1.snoc H.budgeted.2.1 H.budgeted.2.2 e returned

/-! ## Single runs -/

namespace Run

variable {c c' : Scene P} {r r' : Run P} {timeout delay now : Nat}

theorem Timed.budgeted (h : r.Timed timeout delay now) :
    Budgeted (r.began + delay) (r.began + delay + timeout) r.calls := by
  cases h with
  | delaying _ hcalls | missed _ hcalls => exact hcalls ▸ budgeted_nil ..
  | moving _ deadline elapsed => exact deadline ▸ elapsed.budgeted.1
  | calling _ deadline hcalls elapsed => exact deadline ▸ hcalls ▸ elapsed.budgeted_snoc _ _
  | panicked _ hcalls elapsed => exact hcalls ▸ elapsed.budgeted_snoc _ _
  | finished _ elapsed => exact elapsed.budgeted.1

theorem Advance.began_eq (h : r.Advance c c' r') : r'.began = r.began := by cases h <;> rfl

theorem Advance.due_le {due : Nat} (h : r.Advance c c' r') (course : r.course = .delaying due) :
    due ≤ c.now := by
  cases h with
  | start _ _ _ course' hdue | miss _ _ _ course' hdue =>
    cases course.symm.trans course'
    exact hdue
  | opens _ _ course' | calls _ _ course' | proceeds _ course' | returns course' | panics course'
  | closes _ _ course' | emits _ _ course' | finishes _ _ course' =>
    cases course.symm.trans course'

/-- The delay of a run that calls a hook is over. -/
theorem Advance.past_of_call (h : r.Advance c c' r') (hcalls : r.calls.length < r'.calls.length) :
    ∀ due, r.course ≠ .delaying due := by
  rintro due course
  cases h with
  | start | miss => exact absurd hcalls (Nat.lt_irrefl _)
  | opens _ _ course' | calls _ _ course' | proceeds _ course' | returns course' | panics course'
  | closes _ _ course' | emits _ _ course' | finishes _ _ course' =>
    cases course.symm.trans course'

/-- The delay of the run ends when it should: it waits until then, and no longer. -/
def Delayed (delay now : Nat) (r : Run P) : Prop :=
  (r.course = .delaying (r.began + delay) ∧ now ≤ r.began + delay) ∨
    (∀ due, r.course ≠ .delaying due) ∧ r.began + delay ≤ now

theorem Delayed.advance (H : r.Delayed delay c.now) (h : r.Advance c c' r') :
    r'.Delayed delay c.now := by
  refine .inr ⟨h.flags_cases.1, ?_⟩
  rw [h.began_eq]
  rcases H with ⟨course, -⟩ | ⟨-, hle⟩
  · exact h.due_le course
  · exact hle

theorem Delayed.wait (H : r.Delayed delay c.now) (h : r.Waits c) : r.Delayed delay (c.now + 1) := by
  rcases H with ⟨course, -⟩ | ⟨hpast, hle⟩
  · cases h with
    | delaying course' h =>
      cases course.symm.trans course'
      exact .inl ⟨course, h⟩
    | calling course' => cases course.symm.trans course'
    | ended h => rcases h with ⟨_, course'⟩ | ⟨_, course'⟩ <;> cases course.symm.trans course'
  · exact .inr ⟨hpast, Nat.le_succ_of_le hle⟩

end Run

/-! ## All runs -/

namespace Drains

variable {timeout : Nat} {delay : Option Nat} {state : P.State} {s t : Drains P}

theorem Reachable.delayed (h : Reachable timeout delay state s) :
    ∀ r ∈ s.runs, r.Delayed (delay.getD 0) s.now :=
  h.all_runs (Q := fun now r => r.Delayed (delay.getD 0) now)
    (fun _ => .inl ⟨rfl, Nat.le_add_right ..⟩) (fun _ H h => H.advance h) Run.Delayed.wait

/-- When the runs began. -/
def begins (s : Drains P) : List Nat := s.runs.map Run.began

theorem Step.begins_cases (h : Step s t) :
    t.begins = s.begins ∨ t.begins = s.begins ++ [s.now] := by
  cases h with
  | register | works | tick => exact .inl rfl
  | begin => exact .inr (List.map_append ..)
  | advance hruns h =>
    refine .inl ?_
    rw [begins, begins, hruns, List.map_append, List.map_cons, h.began_eq, List.map_append,
      List.map_cons]

theorem Later.begins_prefix (H : Later s t) : s.begins <+: t.begins := by
  refine H.keeps (Q := fun u => s.begins <+: u.begins) (fun {u v} hu h => ?_) (List.prefix_refl _)
  rcases h.begins_cases with heq | heq
  · exact heq ▸ hu
  · exact heq ▸ hu.trans (List.prefix_append ..)

theorem Step.now_le (h : Step s t) : s.now ≤ t.now := by
  cases h with
  | register | works | begin => exact Nat.le_refl _
  | advance _ h => exact Nat.le_of_eq h.now_eq.symm
  | tick => exact Nat.le_succ _

/-- Runs stand in the order in which they began. -/
theorem Reachable.sorted (h : Reachable timeout delay state s) :
    s.begins.Pairwise (· ≤ ·) ∧ ∀ n ∈ s.begins, n ≤ s.now := by
  refine Later.keeps (Q := fun s => s.begins.Pairwise (· ≤ ·) ∧ ∀ n ∈ s.begins, n ≤ s.now)
    (fun {s t} hs h => ?_) h ⟨.nil, nofun⟩
  obtain ⟨hsorted, hle⟩ := hs
  have hnow := h.now_le
  rcases h.begins_cases with heq | heq
  · exact heq ▸ ⟨hsorted, fun n hn => Nat.le_trans (hle n hn) hnow⟩
  · rw [heq]
    refine ⟨List.pairwise_append.mpr ⟨hsorted, List.pairwise_singleton .., fun m hm n hn => ?_⟩,
      fun n hn => ?_⟩
    · exact List.mem_singleton.mp hn ▸ hle m hm
    · rcases List.mem_append.mp hn with hn | hn
      · exact Nat.le_trans (hle n hn) hnow
      · exact List.mem_singleton.mp hn ▸ hnow

/-! ## Both flags -/

theorem Reachable.flagged (h : Reachable timeout delay state s) : s.Flagged :=
  Later.keeps Flagged.step h (flagged_start P timeout delay state)

/-- Once a run has begun, this is so for ever. -/
theorem Step.shutdown (h : Step s t) (hs : s.sequencer.flags.shutdown = true) :
    t.sequencer.flags.shutdown = true := by
  cases h with
  | register | works | tick => exact hs
  | begin => rfl
  | advance _ h =>
    rcases h.flags_cases.2 with ⟨hflags, -⟩ | hflags <;> rw [hflags] <;> exact hs

/-- The first flag is set by the begin of a run before which there was none. -/
theorem Step.announces (h : Step s t) (hs : s.Flagged)
    (hunset : s.sequencer.flags.shutdown = false) (hset : t.sequencer.flags.shutdown = true) :
    t.begins = [s.now] := by
  have none : s.begins = [] := by
    rw [begins, List.map_eq_nil_iff]
    exact Classical.not_not.mp fun hruns => absurd (hs.shutdown.mpr hruns) (by simp [hunset])
  have some : t.begins ≠ [] := by
    rw [begins, Ne, List.map_eq_nil_iff]
    exact (hs.step h).shutdown.mp hset
  rcases h.begins_cases with heq | heq
  · exact absurd (heq.trans none) some
  · rw [heq, none, List.nil_append]

/-- A run whose delay is over finds both flags set. -/
theorem Flagged.both (hs : s.Flagged) {r : Run P} (hr : r ∈ s.runs)
    (hpast : ∀ due, r.course ≠ .delaying due) : s.sequencer.flags = ⟨true, true⟩ := by
  have shutdown := hs.shutdown.mpr (List.ne_nil_of_mem hr)
  have afterDelay := hs.afterDelay.mpr ⟨r, hr, hpast⟩
  calc s.sequencer.flags
      = ⟨s.sequencer.flags.shutdown, s.sequencer.flags.afterDelay⟩ := rfl
    _ = ⟨true, true⟩ := by rw [shutdown, afterDelay]

/-- While the second flag is not set the first run waits for the end of its delay; once the flag is
set, that is past. -/
theorem Reachable.delayed_head (h : Reachable timeout delay state s) {r : Run P}
    (hr : r ∈ s.runs.head?) :
    (s.sequencer.flags.afterDelay = false → s.now ≤ r.began + delay.getD 0) ∧
      (s.sequencer.flags.afterDelay = true → r.began + delay.getD 0 ≤ s.now) := by
  have hmem : r ∈ s.runs := List.mem_of_mem_head? hr
  constructor
  · intro hunset
    rcases h.delayed r hmem with ⟨-, hle⟩ | ⟨hpast, -⟩
    · exact hle
    · exact absurd (h.flagged.afterDelay.mpr ⟨r, hmem, hpast⟩) (by simp [hunset])
  · intro hset
    obtain ⟨later, hlater, hpast⟩ := h.flagged.afterDelay.mp hset
    have hfirst : r.began ≤ later.began := by
      obtain ⟨runs, hruns⟩ := List.head?_eq_some_iff.mp hr
      have hsorted := h.sorted.1
      rw [begins, hruns, List.map_cons] at hsorted
      rcases List.mem_cons.mp (hruns ▸ hlater) with rfl | hlater
      · exact Nat.le_refl _
      · exact List.rel_of_pairwise_cons hsorted (List.mem_map_of_mem hlater)
    rcases h.delayed later hlater with ⟨course, -⟩ | ⟨-, hle⟩
    · exact absurd course (hpast _)
    · omega

/-- The times of the flags and the budgets of the calls. -/
structure Timetable (timeout delay : Nat) (s : Drains P) : Prop where
  implies : s.sequencer.flags.afterDelay = true → s.sequencer.flags.shutdown = true
  /-- Neither flag is ever cleared, and the runs keep the times at which they began. -/
  kept : ∀ t, s.Later t →
    (s.sequencer.flags.shutdown = true → t.sequencer.flags.shutdown = true) ∧
    (s.sequencer.flags.afterDelay = true → t.sequencer.flags.afterDelay = true) ∧
    s.begins <+: t.begins
  /-- The first flag is set when the first run begins, -/
  announced : ∀ t, Step s t → s.sequencer.flags.shutdown = false →
    t.sequencer.flags.shutdown = true → t.begins = [s.now]
  /-- and the second one exactly the delay later. -/
  delayed : ∀ r ∈ s.runs.head?,
    (s.sequencer.flags.afterDelay = false → s.now ≤ r.began + delay) ∧
    (s.sequencer.flags.afterDelay = true → r.began + delay ≤ s.now)
  /-- Each run sets the second flag, again if it is set, exactly its delay after it began. -/
  passed : ∀ r ∈ s.runs, ∀ due, r.course = .delaying due → ∀ c r', r.Advance s.toScene c r' →
    s.now = r.began + delay ∧ c.sequencer.flags = ⟨true, true⟩
  /-- A hook is called when both flags are set. -/
  flagged : ∀ r ∈ s.runs, ∀ c r', r.Advance s.toScene c r' → r.calls.length < r'.calls.length →
    s.sequencer.flags = ⟨true, true⟩
  /-- Each hook is given what is left of the timeout, counted from the end of the delay. -/
  given : ∀ r ∈ s.runs, ∀ k ∈ r.calls,
    r.began + delay ≤ k.called ∧ k.budget = max (r.began + delay + timeout - k.called) 1000
  falls : ∀ r ∈ s.runs, r.calls.Pairwise fun k l => l.budget ≤ k.budget
  bounds : ∀ r ∈ s.runs, ∀ k ∈ r.calls, 1000 ≤ k.budget ∧ k.budget ≤ max timeout 1000

/-- **Flags are set once and in time, and budgets fall**, for every timeout and delay, in every
state that the runs of a sequencer come to, whatever hooks there are and however long they take. -/
theorem timetable_of_reachable {η : Type} {P : Surroundings η} (timeout : Nat)
    (delay : Option Nat) (state : P.State) (s : Drains P) (h : Reachable timeout delay state s) :
    s.Timetable timeout (delay.getD 0) where
  implies hset := by
    obtain ⟨r, hr, -⟩ := h.flagged.afterDelay.mp hset
    exact h.flagged.shutdown.mpr (List.ne_nil_of_mem hr)
  kept t H :=
    ⟨H.keeps fun hs h => h.shutdown hs, H.keeps fun hs h => h.afterDelay hs, H.begins_prefix⟩
  announced t hstep := hstep.announces h.flagged
  delayed r hr := h.delayed_head hr
  passed := by
    intro r hr due course c r' hadv
    have hnow : s.now = r.began + delay.getD 0 := by
      rcases h.delayed r hr with ⟨course', hle⟩ | ⟨hpast, -⟩
      · exact Nat.le_antisymm hle (hadv.due_le course')
      · exact absurd course (hpast due)
    obtain ⟨before, after, hruns⟩ := List.append_of_mem hr
    have hstep : Step s ⟨c, before ++ r' :: after⟩ := .advance hruns hadv
    exact ⟨hnow, (h.flagged.step hstep).both (mem_between.mpr (.inl rfl)) hadv.flags_cases.1⟩
  flagged r hr c r' hadv hcalls := h.flagged.both hr (hadv.past_of_call hcalls)
  given r hr k hk := by
    have H := (h.timed r hr).budgeted
    exact ⟨H.begun_le k hk, H.budget_eq k hk⟩
  falls r hr := by
    have H := (h.timed r hr).budgeted
    refine H.ordered.imp_of_mem fun {k l} hk hl hle => ?_
    rw [H.budget_eq k hk, H.budget_eq l hl]
    exact budget_le_budget hle _
  bounds r hr k hk := by
    have H := (h.timed r hr).budgeted
    rw [H.budget_eq k hk]
    exact ⟨minBudget_le_budget .., budget_le_timeout (H.begun_le k hk) timeout⟩

/-- Hooks that keep their budgets and return when they like. -/
def leisurely : Surroundings Unit where
  State := Unit
  Active := Nat
  works _ _ _ _ := True
  calls _ budget _ _ active _ := active = budget
  proceeds _ _ _ _ _ _ := False
  returns _ _ _ _ _ := True
  panics _ _ _ _ _ := False
  waits _ _ _ _ := True
  exists_calls _ budget _ _ := ⟨budget, (), rfl⟩

/-- The first hook stays for three milliseconds, which leaves less than the least budget. -/
theorem timetable_secondHook : ∃ s : Drains leisurely, Reachable 1002 (some 1) () s ∧
    s.Timetable 1002 1 ∧ ∃ r ∈ s.runs, r.began = 0 ∧
      r.calls.map (fun k => (k.called, k.budget)) = [(1, 1002), (4, 1000)] := by
  have h : Reachable 1002 (some 1) ()
      (register .application () (start leisurely 1002 (some 1) ())) := .step .refl (.register ..)
  have h := (h.step (.register .application ())).step .begin
  have h := h.step (.tick fun r hr => List.mem_singleton.mp hr ▸ .delaying rfl (by decide))
  have h := h.step (.only rfl (.start .empty "id" ⟨0, 0⟩ rfl (Nat.le_refl _)
    (Drain.start?_of_lt (by decide) _)))
  have h := h.step (.only rfl (.opens .empty ⟨0, 0⟩ rfl rfl))
  have h := h.step (.only rfl (.opens .empty ⟨0, 0⟩ rfl rfl))
  have h := h.step (.only rfl (.opens .empty ⟨0, 0⟩ rfl rfl))
  have h := h.step (.only rfl (.opens .empty ⟨0, 0⟩ rfl rfl))
  have h := h.step (.only rfl (.opens .empty ⟨0, 0⟩ rfl rfl))
  have h := h.step (.only rfl (.opens .empty ⟨0, 0⟩ rfl rfl))
  have h := h.step (.only rfl (@Run.Advance.calls _ leisurely _ _ _ _ _ _ _ _ () .empty ⟨0, 0⟩ rfl
    rfl rfl))
  have stays {s : Drains leisurely} {r : Run leisurely} {d : Drain (Entry Unit)} {active : Nat}
      {k : Call Unit} (hruns : s.runs = [r]) (course : r.course = .calling d active)
      (hcalls : r.calls = [k]) : ∀ r ∈ s.runs, r.Waits s.toScene := by
    intro r' hr'
    rw [hruns] at hr'
    have hcalls : r.calls = [] ++ [k] := hcalls
    exact List.mem_singleton.mp hr' ▸ .calling course hcalls trivial
  have h := h.step (.tick (stays rfl rfl rfl))
  have h := h.step (.tick (stays rfl rfl rfl))
  have h := h.step (.tick (stays rfl rfl rfl))
  have h := h.step (.only rfl (@Run.Advance.returns _ leisurely _ _ _ _ () _ _ rfl
    (List.nil_append _).symm trivial))
  have h := h.step (.only rfl (@Run.Advance.calls _ leisurely _ _ _ _ _ _ _ _ () .empty ⟨0, 0⟩ rfl
    rfl rfl))
  exact ⟨_, h, timetable_of_reachable (P := leisurely) 1002 (some 1) () _ h, _, .head _, rfl, rfl⟩

end Drains

end Logbook.Shutdown
