import Logbook.Proofs.Shutdown.Runs
import Logbook.Rehearsal.Drains

/-! How long a run takes. Each hook is given what is left until the deadline and at least the least
budget, so that each one after the first puts the end off by no more than the least budget and its
own delay. The standard hooks keep to their budgets in every world. -/

namespace Logbook.Shutdown

variable {η : Type} {P : Surroundings η}

/-! ## The time of the calls -/

/-- The call lasts no longer than its budget and some time more; up to now, if it goes on. -/
def Call.KeepsTo (g : Entry η → Nat) (now : Nat) (k : Call η) : Prop :=
  k.returned.getD now ≤ k.called + k.budget + g k.entry

/-- The delays of hooks beyond their budgets, one after the other. -/
def overrun (g : Entry η → Nat) : List (Call η) → Nat
  | [] => 0
  | k :: calls => g k.entry + overrun g calls

theorem overrun_snoc (g : Entry η → Nat) (calls : List (Call η)) (k : Call η) :
    overrun g (calls ++ [k]) = overrun g calls + g k.entry := by
  induction calls with
  | nil => exact Nat.add_comm ..
  | cons l calls ih => rw [List.cons_append, overrun, ih, overrun, Nat.add_assoc]

/-- One call puts the end off by at most the least budget. -/
theorem le_of_budget {deadline called t n extra more : Nat}
    (hcalled : called + minBudget ≤ deadline + n * minBudget + extra)
    (ht : t ≤ called + budget deadline called + more) :
    t + minBudget ≤ deadline + (n + 1) * minBudget + (extra + more) := by
  rw [budget, Nat.max_def] at ht
  rw [Nat.succ_mul]
  split at ht <;> omega

theorem Elapsed.le {start deadline t now : Nat} {calls : List (Call η)} {g : Entry η → Nat}
    (H : Elapsed start deadline calls t) (hdeadline : start + minBudget ≤ deadline)
    (hg : ∀ k ∈ calls, k.KeepsTo g now) :
    t + minBudget ≤ deadline + calls.length * minBudget + overrun g calls := by
  induction H with
  | nil => simpa [overrun] using hdeadline
  | snoc H e hle ih =>
    rw [overrun_snoc, List.length_append, List.length_singleton]
    refine le_of_budget (ih fun k hk => hg k (List.mem_append_left _ hk)) ?_
    exact hg _ List.mem_concat_self

namespace Run

/-- When a run ends at the latest that was called with a delay and a timeout. -/
def latest (timeout delay : Nat) (g : Entry η → Nat) (r : Run P) : Nat :=
  r.began + delay + timeout + (r.calls.length - 1) * minBudget + overrun g r.calls

variable {timeout delay now : Nat} {r r' : Run P} {g : Entry η → Nat}

theorem le_latest {t : Nat}
    (h : t + minBudget ≤
      r.began + delay + timeout + r.calls.length * minBudget + overrun g r.calls) :
    t ≤ r.latest timeout delay g := by
  rw [latest]
  cases hn : r.calls.length with
  | zero => rw [hn] at h; omega
  | succ n => rw [hn, Nat.succ_mul] at h; rw [Nat.add_sub_cancel]; omega

theorem Timed.finished_le (h : r.Timed timeout delay now) (htimeout : minBudget ≤ timeout)
    (hg : ∀ k ∈ r.calls, k.KeepsTo g now) {t : Nat} (course : r.course = .finished t) :
    t ≤ r.latest timeout delay g := by
  cases h with
  | finished course' elapsed =>
    cases course.symm.trans course'
    exact le_latest (elapsed.le (Nat.add_le_add_left htimeout _) hg)
  | delaying course' | missed course' | moving course' | calling course' | panicked course' =>
    cases course.symm.trans course'

theorem Timed.now_le (h : r.Timed timeout delay now) (htimeout : minBudget ≤ timeout)
    (hg : ∀ k ∈ r.calls, k.KeepsTo g now) (hover : ¬ r.IsOver) :
    now ≤ r.latest timeout delay g := by
  cases h with
  | delaying course hcalls hle => exact Nat.le_trans hle (by rw [latest]; omega)
  | moving course deadline elapsed =>
    refine le_latest (deadline ▸ elapsed.le ?_ hg)
    exact deadline ▸ Nat.add_le_add_left htimeout _
  | @calling d active calls e called course deadline hcalls elapsed hle =>
    have hstart : r.began + delay + minBudget ≤ d.deadline :=
      deadline ▸ Nat.add_le_add_left htimeout _
    have hcalled := elapsed.le hstart fun k hk => hg k (hcalls ▸ List.mem_append_left _ hk)
    have hlast : Call.KeepsTo g now ⟨e, budget d.deadline called, called, none⟩ :=
      hg _ (hcalls ▸ List.mem_concat_self)
    refine le_latest ?_
    rw [hcalls, overrun_snoc, List.length_append, List.length_singleton, ← deadline]
    exact le_of_budget hcalled hlast
  | missed course | panicked course => exact absurd (.inr ⟨_, course⟩) hover
  | finished course => exact absurd (.inl ⟨_, course⟩) hover

end Run

/-! ## The number of moves -/

/-- How many moves a drain makes at most, apart from its calls. -/
def Drain.movesLeft (d : Drain η) : Nat :=
  2 * d.upcoming.length + (if d.current.isSome then 1 else 0) +
    (match d.carrier with
      | .record _ => 1
      | .detached _ => 0) + 1

theorem Drain.movesLeft_modify (f : Trace.Scope → Trace.Scope) (d : Drain η) :
    Drain.movesLeft { d with carrier := d.carrier.modify f } = d.movesLeft := by
  obtain ⟨_, _, _, carrier⟩ := d
  cases carrier <;> rfl

theorem Drain.movesLeft_closeStage (now : Nat) {entered : OpenStage η} {d : Drain η}
    (h : d.current = some entered) : (d.closeStage now entered).movesLeft + 1 = d.movesLeft := by
  obtain ⟨_, _, current, carrier⟩ := d
  cases h
  cases carrier <;> simp [movesLeft, closeStage, Carrier.setStat, Carrier.modify]

theorem Drain.movesLeft_openStage (now : Nat) {stage : Stage} {later : List Stage} {d : Drain η}
    (q : Sequencer η) (h : d.current = none) (hup : d.upcoming = stage :: later) :
    (d.openStage now stage later q).1.movesLeft < d.movesLeft := by
  obtain ⟨_, _, _, carrier⟩ := d
  cases h
  cases hup
  simp only [movesLeft, openStage, List.length_cons]
  split
  · rw [if_neg (by simp)]
    omega
  · rw [if_pos (by simp), if_neg (by simp)]
    omega

namespace Run

/-- A run makes few moves besides its calls and their returns. -/
def Sparing (r : Run P) : Prop :=
  match r.course with
  | .delaying _ => r.moves = 0
  | .moving d => r.moves + d.movesLeft ≤ 2 * r.calls.length + 21
  | .calling d _ => r.moves + d.movesLeft + 1 ≤ 2 * r.calls.length + 21
  | .finished _ | .failed _ => r.moves ≤ 2 * r.calls.length + 21

variable {c c' : Scene P} {r r' : Run P}

theorem Sparing.advance (hr : r.Sparing) (h : r.Advance c c' r') : r'.Sparing := by
  cases h with
  | start masked id moment course hdue h =>
    simp only [Sparing, course] at hr
    simp only [Drain.start?, Option.map_eq_some_iff] at h
    obtain ⟨_, -, rfl⟩ := h
    simp [Sparing, hr, Drain.movesLeft, Stage.all]
  | miss masked id moment course =>
    simp only [Sparing, course] at hr
    simp [Sparing, hr]
  | opens masked moment course h =>
    simp only [Sparing, course] at hr
    cases Drain.next_of_step h with
    | opened current upcoming =>
      have hlt := Drain.movesLeft_openStage c.now c.sequencer current upcoming
      simp only [Sparing]
      omega
  | calls masked moment course h =>
    simp only [Sparing, course] at hr
    cases Drain.next_of_step h with
    | call current hrest =>
      simp only [Drain.movesLeft, current, Option.isSome_some] at hr
      simp only [Sparing, Drain.movesLeft, List.length_append, List.length_singleton,
        Option.isSome_some]
      omega
  | proceeds f course hcalls =>
    simp only [Sparing, course] at hr
    simpa only [Sparing, Drain.movesLeft_modify] using hr
  | returns course hcalls =>
    simp only [Sparing, course, hcalls, List.length_append, List.length_singleton] at hr ⊢
    omega
  | panics course hcalls =>
    simp only [Sparing, course] at hr ⊢
    omega
  | closes masked moment course h =>
    simp only [Sparing, course] at hr
    cases Drain.next_of_step h with
    | closed current hrest =>
      have hlt := Drain.movesLeft_closeStage c.now current
      simp only [Sparing]
      omega
  | emits masked moment course h =>
    simp only [Sparing, course] at hr
    cases Drain.next_of_step h with
    | emitted current upcoming hrecorded carrier =>
      simp only [Drain.movesLeft, carrier] at hr
      simp only [Sparing, Drain.movesLeft]
      omega
  | finishes masked moment course h =>
    simp only [Sparing, course] at hr ⊢
    simp only [Drain.movesLeft] at hr
    omega

theorem Sparing.moves_le (hr : r.Sparing) : r.moves ≤ 2 * r.calls.length + 21 := by
  cases hcourse : r.course <;> simp only [Sparing, hcourse] at hr <;> omega

/-- A run that does not wait can make its next move, whatever goes on around it. -/
theorem exists_advance {d : Drain (Entry η)} (c : Scene P) (course : r.course = .moving d) :
    ∃ c' r', r.Advance c c' r' := by
  rcases h : d.step .empty c.now ⟨0, 0⟩ c.sequencer with ⟨m, d', q⟩
  cases m with
  | call e budget =>
    obtain ⟨active, state, hcall⟩ := P.exists_calls e.hook budget c.now c.state
    exact ⟨_, _, .calls .empty ⟨0, 0⟩ course h hcall⟩
  | opened stage => exact ⟨_, _, .opens .empty ⟨0, 0⟩ course h⟩
  | closed stage hooks => exact ⟨_, _, .closes .empty ⟨0, 0⟩ course h⟩
  | emitted e => exact ⟨_, _, .emits .empty ⟨0, 0⟩ course h⟩
  | finished => exact ⟨_, _, .finishes .empty ⟨0, 0⟩ course h⟩

theorem exists_start {due : Nat} (c : Scene P) (course : r.course = .delaying due)
    (hdue : due ≤ c.now) : ∃ c' r', r.Advance c c' r' := by
  cases h : (Drain.start? .empty c.now c.sequencer.timeout "" ⟨0, 0⟩ :
      Option (Drain (Entry η))) with
  | some d => exact ⟨_, _, .start .empty "" ⟨0, 0⟩ course hdue h⟩
  | none => exact ⟨_, _, .miss .empty "" ⟨0, 0⟩ course hdue h⟩

end Run

theorem Drains.Reachable.sparing {timeout : Nat} {delay : Option Nat} {state : P.State}
    {s : Drains P} (h : Reachable timeout delay state s) : ∀ r ∈ s.runs, r.Sparing :=
  h.all_runs (Q := fun _ r => r.Sparing) (fun _ => rfl) (fun _ => .advance) fun hr _ => hr

/-! ## Standard hooks -/

/-- What a standard hook may take beyond its budget. -/
def Standard.grace {π : Type} : Standard π → Nat
  | stopShipping => Delivery.Shipper.flushGrace
  | _ => 0

end Logbook.Shutdown

namespace Logbook.Rehearsal.World

/-- The same world, seen at a time. -/
def atTime (now : Nat) (w : World) : World := { w with now := now }

/-- A wait is over when its time has come, whatever it waits for. -/
theorem lookAt_of_due (w : World) (fiber : FiberId) {wait : Wait} (h : wait.due ≤ w.now) :
    ∃ result, (w.lookAt fiber wait).1 = some result := by
  cases hwhat : wait.what with
  | tracker =>
    obtain ⟨result, hresult⟩ :=
      Work.Tracker.awaited_of_due h (!w.trackerWaiters.isListed fiber) w.tracker
    simp only [lookAt, hwhat, lookAtTracker, hresult]
    cases result <;> exact ⟨_, rfl⟩
  | pool i =>
    simp only [lookAt, hwhat, lookAtPool]
    cases w.pool? i with
    | none => exact ⟨_, rfl⟩
    | some p =>
      obtain ⟨result, hresult⟩ := Work.Pool.awaited_of_due h p.pool
      simp only [hresult]
      cases result <;> exact ⟨_, rfl⟩
  | idle =>
    obtain ⟨result, hresult⟩ := Http.InFlight.look_of_due h fiber w.inFlight
    simp only [lookAt, hwhat, lookAtRequests, hresult]
    cases result <;> exact ⟨_, rfl⟩
  | shipper =>
    obtain ⟨result, hresult⟩ := Delivery.Shipper.look_of_due h w.shipper
    simp only [lookAt, hwhat, lookAtShipper, hresult]
    cases result <;> exact ⟨_, rfl⟩
  | listener =>
    obtain ⟨result, hresult⟩ := Http.Listener.awaited_of_due h w.listener
    simp only [lookAt, hwhat, lookAtListener, hresult]
    exact ⟨_, rfl⟩

/-- A standard hook has returned at once, or waits no longer than it may. -/
theorem callHook_standard (w : World) (fiber : FiberId) (hook : Shutdown.Standard PoolId)
    (budget : Nat) (scope : Trace.Scope) :
    (w.callHook fiber (.standard hook) budget scope).1 = none ∨
      ∃ wait, (w.callHook fiber (.standard hook) budget scope).1 = some (.awaiting wait) ∧
        wait.due ≤ w.now + budget + hook.grace := by
  cases hook with
  | closeTracker | closePool | refuseRequests => exact .inl rfl
  | awaitTracker =>
    exact .inr ⟨_, rfl, Nat.le_of_eq (congrArg (· + budget) (now_updateTracker ..))⟩
  | awaitPool | awaitRequests => exact .inr ⟨_, rfl, Nat.le_refl _⟩
  | stopListener =>
    simp only [callHook, stopListener]
    split
    · exact .inr ⟨_, rfl, Nat.le_refl _⟩
    · exact .inl rfl
  | stopShipping =>
    simp only [callHook, stopShipper]
    split
    · exact .inl rfl
    · split
      · refine .inr ⟨_, rfl, Nat.le_of_eq ?_⟩
        rw [now_wake]
        rfl
      · exact .inl rfl

end Logbook.Rehearsal.World

namespace Logbook.Shutdown

open Rehearsal (World HookRun PoolId)

/-- Standard hooks in a service. Whatever the rest of it does, and whatever it has come to when a
hook looks, is left open. -/
def standards : Surroundings (Standard PoolId) where
  State := World
  Active := Option HookRun
  works _ _ _ _ := True
  calls hook budget now w active w' := ∃ fiber scope,
    (w.atTime now).callHook fiber (.standard hook) budget scope = (active, w')
  proceeds _ now active w active' w' := ∃ fiber wait, active = some (.awaiting wait) ∧
    (w.atTime now).lookAt fiber wait = (none, w') ∧ active' = active
  returns _ now active w w' := (active = none ∧ w' = w) ∨
    ∃ fiber wait, active = some (.awaiting wait) ∧
      ∃ result, (w.atTime now).lookAt fiber wait = (some result, w')
  panics _ _ _ _ _ := False
  waits _ now active w := ∃ fiber wait, active = some (.awaiting wait) ∧
    ((w.atTime now).lookAt fiber wait).1 = none
  exists_calls _ _ _ _ := ⟨_, _, 0, .detached, rfl⟩

/-- When a standard hook returns at the latest. -/
def Call.latest {π : Type} (k : Call (Standard π)) : Nat :=
  k.called + k.budget + k.entry.hook.grace

/-- The hook has returned in time. -/
def Call.InTime {π : Type} (k : Call (Standard π)) : Prop :=
  ∃ t, k.returned = some t ∧ t ≤ k.latest

theorem Call.InTime.keepsTo {π : Type} {k : Call (Standard π)} (h : k.InTime) (now : Nat) :
    k.KeepsTo (·.hook.grace) now := by
  obtain ⟨t, ht, hle⟩ := h
  rw [KeepsTo, ht]
  exact hle

namespace Run

/-- All standard hooks that a run has called are in time, and the one that it waits for will be. -/
def Prompt (now : Nat) (r : Run standards) : Prop :=
  match r.course with
  | .delaying _ | .failed _ => r.calls = []
  | .moving _ | .finished _ => ∀ k ∈ r.calls, k.InTime
  | .calling _ active => ∃ calls k, r.calls = calls ++ [k] ∧ (∀ l ∈ calls, l.InTime) ∧
      k.returned = none ∧ now ≤ k.latest ∧
      (active = none ∨ ∃ wait, active = some (.awaiting wait) ∧ wait.due ≤ k.latest)

variable {c c' : Scene standards} {r r' : Run standards}

theorem Prompt.advance (hr : r.Prompt c.now) (h : r.Advance c c' r') : r'.Prompt c.now := by
  cases h with
  | start masked id moment course =>
    simp only [Prompt, course] at hr ⊢
    rw [hr]
    exact nofun
  | miss masked id moment course => simpa only [Prompt, course] using hr
  | opens masked moment course | closes masked moment course | emits masked moment course
  | finishes masked moment course => simpa only [Prompt, course] using hr
  | @calls d d' q e budget active w masked moment course h hcall =>
    simp only [Prompt, course] at hr
    obtain ⟨fiber, scope, hcall⟩ := hcall
    refine ⟨_, _, rfl, hr, rfl, ?_, ?_⟩
    · rw [Call.latest, Nat.add_assoc]
      exact Nat.le_add_right ..
    · have hstandard := World.callHook_standard (c.state.atTime c.now) fiber e.hook budget scope
      rw [hcall] at hstandard
      exact hstandard
  | proceeds f course hcalls h =>
    simp only [Prompt, course] at hr
    obtain ⟨fiber, wait, -, -, rfl⟩ := h
    exact hr
  | returns course hcalls h =>
    simp only [Prompt, course] at hr
    obtain ⟨calls, k, hcalls', hall, -, hle, -⟩ := hr
    obtain ⟨rfl, rfl⟩ := List.append_singleton_inj.mp (hcalls.symm.trans hcalls')
    intro l hl
    rcases List.mem_append.mp hl with hl | hl
    · exact hall l hl
    · exact ⟨_, by rw [List.mem_singleton.mp hl], by rw [List.mem_singleton.mp hl]; exact hle⟩
  | panics course hcalls h => exact h.elim

theorem Prompt.wait (hr : r.Prompt c.now) (h : r.Waits c) : r.Prompt (c.now + 1) := by
  cases hcourse : r.course with
  | delaying | failed | moving | finished => simpa only [Prompt, hcourse] using hr
  | calling d active =>
    simp only [Prompt, hcourse] at hr ⊢
    obtain ⟨calls, k, hcalls, hall, hnone, hle, hactive⟩ := hr
    refine ⟨calls, k, hcalls, hall, hnone, ?_, hactive⟩
    cases h with
    | delaying course' => cases hcourse.symm.trans course'
    | ended h => rcases h with ⟨_, course'⟩ | ⟨_, course'⟩ <;> cases hcourse.symm.trans course'
    | calling course' hcalls' h =>
      cases hcourse.symm.trans course'
      obtain ⟨fiber, wait, rfl, hlook⟩ := h
      obtain hactive | ⟨wait', hactive, hdue⟩ := hactive
      · cases hactive
      · cases hactive
        refine Nat.lt_of_lt_of_le (Nat.not_le.mp fun hnow => ?_) hdue
        obtain ⟨result, hresult⟩ := World.lookAt_of_due (c.state.atTime c.now) fiber hnow
        cases hlook.symm.trans hresult

theorem Prompt.keepsTo {now : Nat} (hr : r.Prompt now) :
    ∀ k ∈ r.calls, k.KeepsTo (·.hook.grace) now := by
  intro k hk
  cases hcourse : r.course with
  | delaying | failed =>
    simp only [Prompt, hcourse] at hr
    rw [hr] at hk
    cases hk
  | moving | finished =>
    simp only [Prompt, hcourse] at hr
    exact (hr k hk).keepsTo now
  | calling d active =>
    simp only [Prompt, hcourse] at hr
    obtain ⟨calls, k', hcalls, hall, hnone, hle, -⟩ := hr
    rw [hcalls] at hk
    rcases List.mem_append.mp hk with hk | hk
    · exact (hall k hk).keepsTo now
    · rw [List.mem_singleton.mp hk, Call.KeepsTo, hnone]
      exact hle

/-- A standard hook waits or returns, so that its run is never stuck. -/
theorem Prompt.waits_or_advance (hr : r.Prompt c.now) (hover : ¬ r.IsOver) :
    r.Waits c ∨ ∃ c' r', r.Advance c c' r' := by
  cases hcourse : r.course with
  | delaying due =>
    by_cases hdue : due ≤ c.now
    · exact .inr (exists_start c hcourse hdue)
    · exact .inl (.delaying hcourse (Nat.not_le.mp hdue))
  | moving d => exact .inr (exists_advance c hcourse)
  | finished => exact absurd (.inl ⟨_, hcourse⟩) hover
  | failed => exact absurd (.inr ⟨_, hcourse⟩) hover
  | calling d active =>
    simp only [Prompt, hcourse] at hr
    obtain ⟨calls, k, hcalls, -, -, -, rfl | ⟨wait, rfl, -⟩⟩ := hr
    · exact .inr ⟨_, _, .returns hcourse hcalls (.inl ⟨rfl, rfl⟩)⟩
    · rcases hlook : (c.state.atTime c.now).lookAt 0 wait with ⟨_ | result, w⟩
      · exact .inl (.calling hcourse hcalls ⟨0, wait, rfl, by rw [hlook]⟩)
      · exact .inr ⟨_, _, .returns hcourse hcalls (.inr ⟨0, wait, rfl, result, hlook⟩)⟩

end Run

namespace Drains

theorem Reachable.prompt {timeout : Nat} {delay : Option Nat} {w : World} {s : Drains standards}
    (h : Reachable timeout delay w s) : ∀ r ∈ s.runs, r.Prompt s.now :=
  h.all_runs (Q := fun now r => r.Prompt now) (fun _ => rfl) (fun _ => .advance) .wait

/-- **Deadline of a drain.** A run makes few moves besides its calls and returns, and is never stuck
between two waits. If its hooks return within some time after their budgets, it ends before the
deadline, not counting this time and the least budget of each hook after the first. The standard
hooks do not panic, and return within their budgets, that of the shipper within its grace after it,
whatever the rest of the service does. -/
theorem bounded_by_deadline {timeout : Nat} (delay : Option Nat) (htimeout : minBudget ≤ timeout) :
    (∀ {η : Type} {P : Surroundings η} {state : P.State} {s : Drains P},
      Reachable timeout delay state s → ∀ r ∈ s.runs,
        r.moves ≤ 2 * r.calls.length + 21 ∧
        (r.IsOver ∨ (∃ due, r.course = .delaying due ∧ s.now < due) ∨
          (∃ d active, r.course = .calling d active) ∨ ∃ c r', r.Advance s.toScene c r') ∧
        ∀ g : Entry η → Nat, (∀ k ∈ r.calls, k.KeepsTo g s.now) →
          (∀ t, r.course = .finished t → t ≤ r.latest timeout (delay.getD 0) g) ∧
          (¬ r.IsOver → s.now ≤ r.latest timeout (delay.getD 0) g)) ∧
    ∀ {w : World} {s : Drains standards}, Reachable timeout delay w s → ∀ r ∈ s.runs,
      (∀ dropped, r.course = .failed dropped → r.calls = []) ∧
      (∀ t, r.course = .finished t → t ≤ r.latest timeout (delay.getD 0) (·.hook.grace)) ∧
      (¬ r.IsOver → s.now ≤ r.latest timeout (delay.getD 0) (·.hook.grace) ∧
        (r.Waits s.toScene ∨ ∃ c r', r.Advance s.toScene c r')) := by
  constructor
  · intro η P state s h r hr
    refine ⟨(h.sparing r hr).moves_le, ?_, ?_⟩
    · cases hcourse : r.course with
      | delaying due =>
        by_cases hdue : due ≤ s.now
        · exact .inr (.inr (.inr (Run.exists_start _ hcourse hdue)))
        · exact .inr (.inl ⟨due, rfl, Nat.not_le.mp hdue⟩)
      | moving d => exact .inr (.inr (.inr (Run.exists_advance _ hcourse)))
      | calling d active => exact .inr (.inr (.inl ⟨d, active, rfl⟩))
      | finished t => exact .inl (.inl ⟨t, hcourse⟩)
      | failed dropped => exact .inl (.inr ⟨dropped, hcourse⟩)
    · intro g hg
      exact ⟨fun t => (h.timed r hr).finished_le htimeout hg, (h.timed r hr).now_le htimeout hg⟩
  · intro w s h r hr
    have hprompt : r.Prompt s.now := h.prompt r hr
    have hkept := hprompt.keepsTo
    refine ⟨?_, fun t => (h.timed r hr).finished_le htimeout hkept, ?_⟩
    · intro dropped course
      rwa [Run.Prompt, course] at hprompt
    · intro hover
      exact ⟨(h.timed r hr).now_le htimeout hkept hover, hprompt.waits_or_advance hover⟩

/-- After a delay the tracker is awaited, for a unit that does not leave. -/
theorem bounded_by_deadline_unitStays : ∃ (w : World) (s : Drains standards), minBudget ≤ 1000 ∧
    Reachable 1000 (some 2) w s ∧ ∃ r ∈ s.runs, r.calls.length = 1 ∧ s.now = 2 ∧
      s.now ≤ r.latest 1000 2 (·.hook.grace) ∧
        (r.Waits s.toScene ∨ ∃ c r', r.Advance s.toScene c r') := by
  let w : World := { World.ofScript ⟨[], 1000, some 2, .nowhere, ⟨0, none, [], [], false⟩, ""⟩ with
    tracker := ⟨1, false⟩ }
  have h : Reachable 1000 (some 2) w
      (register .awaitExecutors .awaitTracker (start standards 1000 (some 2) w)) :=
    .step .refl (.register ..)
  have h := h.step .begin
  have h := h.step (.tick fun r hr => List.mem_singleton.mp hr ▸ .delaying rfl (by decide))
  have h := h.step (.tick fun r hr => List.mem_singleton.mp hr ▸ .delaying rfl (by decide))
  have h := h.step (.only rfl (.start .empty "id" ⟨0, 0⟩ rfl (Nat.le_refl _)
    (Drain.start?_of_lt (by decide) _)))
  have h := h.step (.only rfl (.opens .empty ⟨0, 0⟩ rfl rfl))
  have h := h.step (.only rfl (.opens .empty ⟨0, 0⟩ rfl rfl))
  have h := h.step (.only rfl (.opens .empty ⟨0, 0⟩ rfl rfl))
  have h := h.step (.only rfl (.opens .empty ⟨0, 0⟩ rfl rfl))
  have h := h.step (.only rfl (.calls .empty ⟨0, 0⟩ rfl rfl ⟨1, .detached, rfl⟩))
  obtain ⟨hle, hnext⟩ := ((bounded_by_deadline (some 2) (Nat.le_refl _)).2 h _ (.head _)).2.2
    (by rintro (⟨_, course⟩ | ⟨_, course⟩) <;> cases course)
  exact ⟨w, _, Nat.le_refl _, h, _, .head _, rfl, rfl, hle, hnext⟩

end Drains

end Logbook.Shutdown
