import Logbook.Proofs.Config.Accepted
import Logbook.Proofs.Shutdown.Budgets
import Logbook.Proofs.Shutdown.Deadline
import Logbook.Proofs.Shutdown.Order

/-! Drains of accepted configurations. Their timeouts have a lower bound only, while a moment has an
upper one. A run whose deadline is a moment goes through all stages, and budgets stay in their
bounds; a run whose deadline is none fails when it is fixed, before the first stage. -/

namespace Logbook.Shutdown

variable {η : Type} {P : Surroundings η}

/-! ## Deadlines that are moments -/

theorem Drain.start?_isSome_iff {masked : Trace.Mask.Registry} {now timeout : Nat} {id : String}
    {moment : Moment} : (start? masked now timeout id moment : Option (Drain η)).isSome ↔
      now + timeout < endOfTime := by
  rw [start?, Option.isSome_map, later?, Option.isSome_ite]

namespace Run

/-- What comes of a run as its deadline is a moment or is none. -/
structure Dated (timeout delay : Nat) (r : Run P) : Prop where
  /-- Only a hook makes it fail. -/
  called : r.began + delay + timeout < endOfTime → ∀ dropped, r.course = .failed dropped →
    r.calls ≠ []
  missed : endOfTime ≤ r.began + delay + timeout →
    r.course = .delaying (r.began + delay) ∨ r.course = .failed [] ∧ r.calls = []

variable {c c' : Scene P} {r r' : Run P} {timeout delay : Nat}

/-- The stages of a run have begun only if its deadline is a moment. -/
theorem Dated.lt (h : r.Dated timeout delay)
    (hbegun : (∃ d, r.course = .moving d) ∨ ∃ d active, r.course = .calling d active) :
    r.began + delay + timeout < endOfTime := by
  by_contra hlate
  have hmissed := h.missed (Nat.not_lt.mp hlate)
  rcases hbegun with ⟨d, course⟩ | ⟨d, active, course⟩ <;>
    rcases hmissed with course' | ⟨course', -⟩ <;> cases course.symm.trans course'

theorem Dated.of_lt (h : r.began + delay + timeout < endOfTime)
    (hfailed : ∀ dropped, r.course = .failed dropped → r.calls ≠ []) : r.Dated timeout delay :=
  ⟨fun _ => hfailed, fun hlate => absurd h (Nat.not_lt.mpr hlate)⟩

/-- No time goes by between the end of the delay and the next move. -/
theorem Timed.of_delaying {now due : Nat} (h : r.Timed timeout delay now)
    (course : r.course = .delaying due) (hdue : due ≤ now) :
    now = r.began + delay ∧ r.calls = [] := by
  cases h with
  | delaying course' hcalls hle =>
    cases course.symm.trans course'
    exact ⟨Nat.le_antisymm hle hdue, hcalls⟩
  | missed course' | moving course' | calling course' | panicked course' | finished course' =>
    cases course.symm.trans course'

theorem Dated.advance (hr : r.Dated timeout delay) (htimed : r.Timed timeout delay c.now)
    (htimeout : c.sequencer.timeout = timeout) (h : r.Advance c c' r') :
    r'.Dated timeout delay := by
  -- the first two moves fix the deadline; all others are made by runs that have one
  cases h with
  | start masked id moment course hdue h =>
    have hlt := Drain.start?_isSome_iff.mp (Option.isSome_iff_exists.mpr ⟨_, h⟩)
    rw [htimeout, (htimed.of_delaying course hdue).1] at hlt
    exact .of_lt hlt nofun
  | miss masked id moment course hdue h =>
    have hlate := Drain.start?_isSome_iff.not.mp (Option.not_isSome_iff_eq_none.mpr h)
    obtain ⟨hnow, hcalls⟩ := htimed.of_delaying course hdue
    rw [htimeout, hnow] at hlate
    exact ⟨fun hlt => absurd hlt hlate, fun _ => .inr ⟨rfl, hcalls⟩⟩
  | opens masked moment course | calls masked moment course | closes masked moment course
  | emits masked moment course | finishes masked moment course =>
    exact .of_lt (hr.lt (.inl ⟨_, course⟩)) nofun
  | proceeds f course | returns course => exact .of_lt (hr.lt (.inr ⟨_, _, course⟩)) nofun
  | panics course hcalls =>
    refine .of_lt (hr.lt (.inr ⟨_, _, course⟩)) fun _ _ => ?_
    rw [hcalls]
    exact List.concat_ne_nil _ _

end Run

theorem Drains.Reachable.dated {timeout : Nat} {delay : Option Nat} {state : P.State} {s : Drains P}
    (h : Reachable timeout delay state s) : ∀ r ∈ s.runs, r.Dated timeout (delay.getD 0) := by
  have hall := h.all_runs
    (Q := fun now r => r.Timed timeout (delay.getD 0) now ∧ r.Dated timeout (delay.getD 0))
    (fun _ => ⟨.delaying rfl rfl (Nat.le_add_right ..), ⟨nofun, fun _ => .inl rfl⟩⟩)
    (fun htimeout hr h => ⟨hr.1.advance htimeout h, hr.2.advance hr.1 htimeout h⟩)
    (fun hr h => ⟨hr.1.wait h, hr.2⟩)
  exact fun r hr => (hall r hr).2

/-! ## Runs with and without a deadline -/

namespace Run

variable {c : Scene P} {r : Run P} {timeout delay due now : Nat}

/-- A run that gets through all stages unless one of its hooks keeps it. -/
structure Thorough (due timeout : Nat) (c : Scene P) (r : Run P) : Prop where
  /-- Each hook is given what is left, counted from the end of the delay. -/
  given : ∀ k ∈ r.calls, due ≤ k.called ∧ k.budget = budget (due + timeout) k.called
  bounds : ∀ k ∈ r.calls, minBudget ≤ k.budget ∧ k.budget ≤ timeout
  /-- It fails only when a hook panics, which does not return then. -/
  failed : ∀ dropped, r.course = .failed dropped →
    ∃ calls k, r.calls = calls ++ [k] ∧ k.returned = none
  stages : ∀ t, r.course = .finished t → r.opened.map Opening.stage = Stage.all
  moves_le : r.moves ≤ 2 * r.calls.length + 21
  goesOn : r.IsOver ∨ (∃ due, r.course = .delaying due ∧ c.now < due) ∨
    (∃ d active, r.course = .calling d active) ∨ ∃ c' r', r.Advance c c' r'

/-- A run that has no deadline. It waits for its delay, and then all it can do is fail. -/
structure Futile (due : Nat) (c : Scene P) (r : Run P) : Prop where
  course : r.course = .delaying due ∨ r.course = .failed []
  opened : r.opened = []
  calls : r.calls = []
  fails : ∀ c' r', r.Advance c c' r' → r'.course = .failed []

theorem Timed.exists_last (h : r.Timed timeout delay now) {dropped : List (Entry η)}
    (course : r.course = .failed dropped) (hne : r.calls ≠ []) :
    ∃ calls k, r.calls = calls ++ [k] ∧ k.returned = none := by
  cases h with
  | panicked _ hcalls => exact ⟨_, _, hcalls, rfl⟩
  | missed _ hcalls => exact absurd hcalls hne
  | delaying course' | moving course' | calling course' | finished course' =>
    cases course.symm.trans course'

theorem goesOn (c : Scene P) (r : Run P) :
    r.IsOver ∨ (∃ due, r.course = .delaying due ∧ c.now < due) ∨
      (∃ d active, r.course = .calling d active) ∨ ∃ c' r', r.Advance c c' r' := by
  cases course : r.course with
  | delaying due =>
    by_cases hdue : due ≤ c.now
    · exact .inr (.inr (.inr (exists_start c course hdue)))
    · exact .inr (.inl ⟨due, rfl, Nat.not_le.mp hdue⟩)
  | moving d => exact .inr (.inr (.inr (exists_advance c course)))
  | calling d active => exact .inr (.inr (.inl ⟨d, active, rfl⟩))
  | finished t => exact .inl (.inl ⟨t, course⟩)
  | failed dropped => exact .inl (.inr ⟨dropped, course⟩)

theorem Staged.opened_eq_nil (h : r.Staged)
    (hcourse : r.course = .delaying due ∨ r.course = .failed [] ∧ r.calls = []) :
    r.opened = [] ∧ r.calls = [] := by
  cases h with
  | delaying _ hopened hcalls | missed _ hopened hcalls => exact ⟨hopened, hcalls⟩
  | moving course | calling course | finished course =>
    rcases hcourse with hcourse | ⟨hcourse, -⟩ <;> cases course.symm.trans hcourse
  | panicked course _ hcalls =>
    rcases hcourse with hcourse | ⟨-, hcourse⟩
    · cases course.symm.trans hcourse
    · rw [hcourse] at hcalls
      exact absurd hcalls.symm (List.concat_ne_nil _ _)

end Run

namespace Drains

variable {timeout : Nat} {delay : Option Nat} {state : P.State} {s : Drains P} {r : Run P}

theorem Reachable.thorough (h : Reachable timeout delay state s) (htimeout : minBudget ≤ timeout)
    (hr : r ∈ s.runs) (hlt : r.began + delay.getD 0 + timeout < endOfTime) :
    r.Thorough (r.began + delay.getD 0) timeout s.toScene where
  given k hk := by
    have H := (h.timed r hr).budgeted
    exact ⟨H.begun_le k hk, H.budget_eq k hk⟩
  bounds k hk := by
    have H := (h.timed r hr).budgeted
    rw [H.budget_eq k hk]
    refine ⟨minBudget_le_budget .., (budget_le_timeout (H.begun_le k hk) timeout).trans ?_⟩
    exact (Nat.max_eq_left htimeout).le
  failed dropped course :=
    (h.timed r hr).exists_last course ((h.dated r hr).called hlt dropped course)
  stages t := h.stages_of_finished hr
  moves_le := (h.sparing r hr).moves_le
  goesOn := r.goesOn s.toScene

theorem Reachable.futile (h : Reachable timeout delay state s) (hr : r ∈ s.runs)
    (hle : endOfTime ≤ r.began + delay.getD 0 + timeout) :
    r.Futile (r.began + delay.getD 0) s.toScene := by
  have hdated := h.dated r hr
  have hcourse := hdated.missed hle
  obtain ⟨hopened, hcalls⟩ := (h.staged r hr).opened_eq_nil hcourse
  refine ⟨hcourse.imp_right And.left, hopened, hcalls, fun c' r' hadv => ?_⟩
  have hnext := hdated.advance (h.timed r hr) h.settings_eq.1 hadv
  rw [← hadv.began_eq] at hle
  exact ((hnext.missed hle).resolve_left (hadv.flags_cases.1 _)).1

/-! ## Configurations -/

/-- The drains of a sequencer that is built from a configuration. -/
def startOf (P : Surroundings η) (c : Config.Shutdown) (state : P.State) : Drains P where
  sequencer := .ofSeconds c.timeoutSecs c.delaySecs
  registered := []
  now := 0
  state := state
  runs := []

def ReachableOf (c : Config.Shutdown) (state : P.State) (s : Drains P) : Prop :=
  Later (startOf P c state) s

/-- When the delay of a run is over. -/
def dueOf (c : Config.Shutdown) (r : Run P) : Nat :=
  r.began + (c.delaySecs.map (· * 1000)).getD 0

theorem ReachableOf.reachable {c : Config.Shutdown} (h : ReachableOf c state s) :
    Reachable (c.timeoutSecs * 1000) (c.delaySecs.map (· * 1000)) state s := h

/-- **Drains of accepted configurations.** With an accepted configuration a run goes through all
stages, and its hooks are given budgets between the least one and the timeout, if the timeout after
the end of its delay is a moment. Otherwise it fails at the end of its delay and opens no stage;
nothing is said of a delay that ends at no moment. -/
theorem runs_of_parse {document : String} {env : Config.Environment} {c : Config}
    (hparse : Config.parse document env = .ok c) (h : ReachableOf c.shutdown state s)
    (hr : r ∈ s.runs) :
    (dueOf c.shutdown r + c.shutdown.timeoutSecs * 1000 < endOfTime →
      r.Thorough (dueOf c.shutdown r) (c.shutdown.timeoutSecs * 1000) s.toScene) ∧
    (dueOf c.shutdown r < endOfTime →
      endOfTime ≤ dueOf c.shutdown r + c.shutdown.timeoutSecs * 1000 →
      r.Futile (dueOf c.shutdown r) s.toScene) := by
  have htimeout : minBudget ≤ c.shutdown.timeoutSecs * 1000 :=
    Nat.le_mul_of_pos_left 1000 (Config.valid_of_parse hparse).timeout
  exact ⟨h.reachable.thorough htimeout hr, fun _ => h.reachable.futile hr⟩

/-- A drain of the configuration of the empty document, which finishes. -/
theorem runs_of_parse_empty : ∃ c, Config.parse "" (fun _ => none) = .ok c ∧
    ∃ s : Drains sudden, ReachableOf c.shutdown () s ∧ ∃ r ∈ s.runs, r.course = .finished 0 ∧
      r.Thorough 0 25000 s.toScene := by
  have hparse : Config.parse "" (fun _ => none) = .ok Config.default :=
    Config.parse_of_valid rfl (.unset rfl) (.unset rfl) (Config.valid_default.withDrain nofun nofun)
  have h : ReachableOf (P := sudden) Config.default.shutdown ()
      (register .application true (startOf sudden Config.default.shutdown ())) :=
    .step .refl (.register ..)
  have h := (h.step .begin).step (.only rfl (.start .empty "id" ⟨0, 0⟩ rfl (Nat.le_refl _) rfl))
  have h := h.step (.only rfl (.opens .empty ⟨0, 0⟩ rfl rfl))
  have h := h.step (.only rfl (.opens .empty ⟨0, 0⟩ rfl rfl))
  have h := h.step (.only rfl (.opens .empty ⟨0, 0⟩ rfl rfl))
  have h := h.step (.only rfl (.opens .empty ⟨0, 0⟩ rfl rfl))
  have h := h.step (.only rfl (.opens .empty ⟨0, 0⟩ rfl rfl))
  have h := h.step (.only rfl (.opens .empty ⟨0, 0⟩ rfl rfl))
  have h := h.step (.only rfl (.calls .empty ⟨0, 0⟩ rfl rfl (sudden_calls ..)))
  have h := h.step (.only rfl (.returns rfl (List.nil_append _).symm sudden_returns))
  have h := h.step (.only rfl (.closes .empty ⟨0, 0⟩ rfl rfl))
  have h := h.step (.only rfl (.opens .empty ⟨0, 0⟩ rfl rfl))
  have h := h.step (.only rfl (.emits .empty ⟨0, 0⟩ rfl rfl))
  have h := h.step (.only rfl (.opens .empty ⟨0, 0⟩ rfl rfl))
  have h := h.step (.only rfl (.opens .empty ⟨0, 0⟩ rfl rfl))
  have h := h.step (.only rfl (.finishes .empty ⟨0, 0⟩ rfl rfl))
  exact ⟨_, hparse, _, h, _, .head _, rfl, (runs_of_parse hparse h (.head _)).1 (by decide)⟩

/-- The largest timeout of all is accepted, and no run of a sequencer that has it opens a stage. -/
theorem parse_then_futile : ∃ c,
    Config.parse "" (Config.only Config.timeoutVariable "18446744073709551615") = .ok c ∧
    (∀ {η : Type} {P : Surroundings η} {state : P.State} {s : Drains P},
      ReachableOf c.shutdown state s → ∀ r ∈ s.runs, r.opened = [] ∧ ∀ t, r.course ≠ .finished t) ∧
    ∃ s : Drains sudden, ReachableOf c.shutdown () s ∧ ∃ r ∈ s.runs, r.course = .failed [] := by
  have hdigits : ∀ c ∈ "18446744073709551615".toList, c.isDigit = true := List.all_eq_true.mp rfl
  have htells : Config.Tells (Config.only Config.timeoutVariable "18446744073709551615")
      Config.timeoutVariable (some 18446744073709551615) :=
    .seconds rfl ⟨[], "18446744073709551615".toList, [], _, rfl, nofun, nofun, .inl rfl, by decide,
      hdigits, by decide, by decide⟩
  have hempty : Config.ofToml "" = .ok Config.default := rfl
  have hparse := Config.parse_of_valid hempty htells (.unset rfl)
    (Config.valid_default.withDrain (by rintro _ ⟨⟩; decide) nofun)
  refine ⟨_, hparse, fun {η P state s} h r hr => ?_, ?_⟩
  · have hlate : endOfTime ≤ 18446744073709551615 * 1000 := by decide
    have hfutile := h.reachable.futile hr (hlate.trans (Nat.le_add_left ..))
    refine ⟨hfutile.opened, fun t course => ?_⟩
    rcases hfutile.course with course' | course' <;> cases course.symm.trans course'
  · have h : ReachableOf (P := sudden) (Config.withDrain (some 18446744073709551615) none
        Config.default).shutdown () _ := .step .refl .begin
    have h := h.step (.only rfl (.miss .empty "id" ⟨0, 0⟩ rfl (Nat.le_refl _) rfl))
    exact ⟨_, h, _, .head _, rfl⟩

end Drains

end Logbook.Shutdown
