import Logbook.Proofs.Shutdown.Order
import Logbook.Proofs.Work.Workshop
import Logbook.Shutdown.Standard

/-! What a drain has waited for when it comes to its producers. The waits for the tracker and for
the pools are hooks of one stage, called one after the other, so that work which a job brings during
a later wait is not seen by an earlier one. Once a pool was awaited in time it is done for good.
Once the tracker was, all units have ended that were joined before this wait, and all units if the
pools had been awaited before and no stranger brings more. -/

namespace Logbook.Work

variable {π κ : Type}

/-- What a hook that was called waits for. -/
inductive Awaiting (π : Type) where
  | nothing
  | tracker (waiter due budget : Nat)
  | pool (p : π) (due : Nat)
  | other

namespace Workshop

/-- A hook looks for what it waits for, and returns unless it is to wait on. -/
def look (now : Nat) (w : Workshop π) : Awaiting π → Option (Workshop π)
  | .nothing | .other => some w
  | .tracker waiter due budget =>
    (w.tracker.awaited (!w.waiters.isListed waiter) due now).map fun inTime =>
      (if inTime then w else w.warn (w.tracker.overdue budget)).strike waiter
  | .pool p due =>
    ((w.pools p).pool.awaited due now).map fun inTime =>
      if inTime then w else w.warn (w.pools p).pool.overdue

variable [DecidableEq π]

/-- A hook is called; most have nothing to do with the work. -/
def call (hook : Shutdown.Standard π) (budget now : Nat) (w : Workshop π) :
    Awaiting π × Workshop π :=
  match hook with
  | .closeTracker => (.nothing, w.updateTracker Tracker.close)
  | .awaitTracker => (.tracker w.waits.length (now + budget) budget, w.await)
  | .closePool p => (.nothing, w.setPool p ((w.pools p).setPool (w.pools p).pool.close))
  | .awaitPool p => (.pool p (now + budget), w)
  | .refuseRequests | .awaitRequests | .stopListener | .stopShipping => (.other, w)

end Workshop

/-- The work goes on around the drains. Other hooks end as they like; what they do to the work, they
do as anybody may. -/
def workshop (π κ : Type) [DecidableEq π] : Shutdown.Surroundings (Shutdown.Standard π ⊕ κ) where
  State := Workshop π
  Active := Awaiting π
  works _ _ w w' := w.Step w'
  calls hook budget now w a w' :=
    match hook with
    | .inl hook => w.call hook budget now = (a, w')
    | .inr _ => a = .other ∧ w' = w
  proceeds _ _ a w a' w' := a = .other ∧ a' = .other ∧ w' = w
  returns _ now a w w' := w.look now a = some w'
  panics _ _ a w w' := a = .other ∧ w' = w
  waits _ now a w := a = .other ∨ w.look now a = none
  exists_calls hook _ _ w := by
    cases hook with
    | inl hook => exact ⟨_, _, rfl⟩
    | inr => exact ⟨.other, w, rfl, rfl⟩

namespace Workshop

variable {w w' : Workshop π}

theorem look_tracker {now i due budget : Nat} (h : w.look now (.tracker i due budget) = some w') :
    (w.tracker.isDrained = true ∨ i ∉ w.waiters.listed) ∧ w' = w.strike i ∨
      w' = (w.warn (w.tracker.overdue budget)).strike i := by
  simp only [look, Option.map_eq_some_iff] at h
  obtain ⟨_ | _, hawaited, rfl⟩ := h
  · exact .inr rfl
  · refine .inl ⟨?_, rfl⟩
    simpa [Tracker.awaited, Waiters.isListed, Decidable.imp_iff_not_or] using hawaited

theorem look_pool {now due : Nat} {p : π} (h : w.look now (.pool p due) = some w') :
    (w.pools p).pool.isTerminated = true ∧ w' = w ∨ w' = w.warn (w.pools p).pool.overdue := by
  simp only [look, Option.map_eq_some_iff] at h
  obtain ⟨_ | _, hawaited, rfl⟩ := h
  · exact .inr rfl
  · exact .inl ⟨by simpa [Pool.awaited] using hawaited, rfl⟩

theorem onward_look {now : Nat} {a : Awaiting π} (h : w.look now a = some w') : Onward w w' := by
  cases a with
  | nothing | other => cases h; exact .refl w
  | tracker i =>
    rcases look_tracker h with ⟨-, rfl⟩ | rfl
    · exact onward_strike i w
    · exact (onward_warn _ w).trans (onward_strike i _)
  | pool =>
    rcases look_pool h with ⟨-, rfl⟩ | rfl
    · exact .refl w'
    · exact onward_warn _ w

theorem Sound.look {now : Nat} {a : Awaiting π} (H : Sound w) (h : w.look now a = some w') :
    Sound w' := by
  cases a with
  | nothing | other => cases h; exact H
  | tracker i =>
    rcases look_tracker h with ⟨hi, rfl⟩ | rfl
    · exact H.strike (.inr hi)
    · exact (H.warn _).strike (.inl (overdue_warn _ w))
  | pool =>
    rcases look_pool h with ⟨-, rfl⟩ | rfl
    · exact H
    · exact H.warn _

/-- The wait began after some earlier time `t`, and if all pools had been awaited in time before it,
then no job brings a unit any more. -/
def BegunAfter (t w : Workshop π) (awaited : Prop) (i : Nat) : Prop :=
  ∃ v : Wait, w.waits[i]? = some v ∧ t.joined.length ≤ v.joined ∧ t.strangers ≤ v.strangers ∧
    (awaited → w.overdue = [] → w.ofJobs = v.ofJobs ∧ ∀ p, Executor.AllLeft (w.pools p))

theorem BegunAfter.onward {t : Workshop π} {awaited : Prop} {i : Nat}
    (H : BegunAfter t w awaited i) (h : Onward w w') : BegunAfter t w' awaited i := by
  obtain ⟨v, hv, hjoined, hstrangers, hquiet⟩ := H
  refine ⟨v, h.wait hv, hjoined, hstrangers, fun hawaited htime => ?_⟩
  obtain ⟨hjobs, hleft⟩ := hquiet hawaited (h.in_time htime)
  exact ⟨(h.ofJobs hleft).trans hjobs, fun p => h.allLeft (hleft p)⟩

variable [DecidableEq π]

theorem onward_call (hook : Shutdown.Standard π) (budget now : Nat) (w : Workshop π) :
    Onward w (w.call hook budget now).2 := by
  cases hook with
  | closeTracker => exact onward_updateTracker Tracker.close w
  | awaitTracker => exact onward_await w
  | closePool => exact onward_setPool (.other .refl .shutDown)
  | awaitPool | refuseRequests | awaitRequests | stopListener | stopShipping => exact .refl w

theorem Sound.call (H : Sound w) (hook : Shutdown.Standard π) (budget now : Nat) :
    Sound (w.call hook budget now).2 := by
  cases hook with
  | closeTracker => exact H.close
  | awaitTracker => exact H.await
  | closePool => exact { H with }
  | awaitPool | refuseRequests | awaitRequests | stopListener | stopShipping => exact H

end Workshop

open Shutdown (Run Call Drains Entry Scene Stage)

variable [DecidableEq π]

/-! ## The work during drains -/

theorem advance_kept {c c' : Scene (workshop π κ)} {r r' : Run (workshop π κ)}
    (h : r.Advance c c' r') :
    Workshop.Onward c.state c'.state ∧ (Workshop.Sound c.state → Workshop.Sound c'.state) := by
  cases h with
  | start | miss | opens | closes | emits | finishes => exact ⟨.refl _, id⟩
  | @calls _ _ _ e budget a w _ _ _ _ hcall =>
    obtain ⟨number, stage, hook⟩ := e
    cases hook with
    | inl hook =>
      obtain rfl : (c.state.call hook budget c.now).2 = w := congrArg Prod.snd hcall
      exact ⟨Workshop.onward_call hook budget c.now c.state, fun H => H.call hook budget c.now⟩
    | inr =>
      obtain ⟨-, rfl⟩ := hcall
      exact ⟨.refl _, id⟩
  | proceeds _ _ _ h =>
    obtain ⟨-, -, rfl⟩ := h
    exact ⟨.refl _, id⟩
  | returns _ _ h => exact ⟨Workshop.onward_look h, fun H => H.look h⟩
  | panics _ _ h =>
    obtain ⟨-, rfl⟩ := h
    exact ⟨.refl _, id⟩

theorem step_kept {s t : Drains (workshop π κ)} (h : s.Step t) :
    Workshop.Onward s.state t.state ∧ (Workshop.Sound s.state → Workshop.Sound t.state) := by
  cases h with
  | register | begin | tick => exact ⟨.refl _, id⟩
  | works h => exact ⟨Workshop.Step.onward h, fun H => H.step h⟩
  | advance _ h => exact advance_kept h

variable {timeout : Nat} {delay : Option Nat}

theorem sound_of_reachable {pools : π → Executor} {s : Drains (workshop π κ)}
    (h : Drains.Reachable timeout delay (Workshop.start pools) s) : Workshop.Sound s.state :=
  h.keeps (Q := fun s : Drains (workshop π κ) => Workshop.Sound s.state)
    (fun hs h => (step_kept h).2 hs) (Workshop.sound_start pools)

theorem onward_of_later {s t : Drains (workshop π κ)} (H : Drains.Later s t) :
    Workshop.Onward s.state t.state :=
  H.keeps (Q := fun t => Workshop.Onward s.state t.state) (fun ht h => ht.trans (step_kept h).1)
    (.refl s.state)

/-- The pools of a service are executors of their own. -/
theorem executor_of_reachable {names : π → String} {sizes : π → Nat} {s : Drains (workshop π κ)}
    (h : Drains.Reachable timeout delay (Workshop.ofPools names sizes) s) (p : π) :
    Executor.Reachable (names p) (sizes p) (s.state.pools p) :=
  (onward_of_later h).pools p

/-- The work moves on during the drains. -/
theorem step_of_work {s : Drains (workshop π κ)} {w : Workshop π} (h : Workshop.Step s.state w) :
    s.Step { s with state := w } :=
  .works h

/-! ## What each call leaves behind -/

/-- All pools have been awaited by calls before. -/
def AllAwaited (before : List (Call (Shutdown.Standard π ⊕ κ))) : Prop :=
  ∀ p, ∃ l ∈ before, l.entry.hook = .inl (.awaitPool p)

/-- What is so for a call while its hook waits, since some earlier state `u`. -/
structure Waiting (u : Drains (workshop π κ)) (w : Workshop π)
    (before : List (Call (Shutdown.Standard π ⊕ κ))) (k : Call (Shutdown.Standard π ⊕ κ))
    (a : Awaiting π) : Prop where
  pool : ∀ p, k.entry.hook = .inl (.awaitPool p) → ∃ due, a = .pool p due
  tracker : k.entry.hook = .inl .awaitTracker → ¬ u.Called k.entry →
    ∃ i due budget, a = .tracker i due budget ∧ Workshop.BegunAfter u.state w (AllAwaited before) i

/-- What is so once the hook has returned. -/
structure Settled (u : Drains (workshop π κ)) (w : Workshop π)
    (before : List (Call (Shutdown.Standard π ⊕ κ))) (k : Call (Shutdown.Standard π ⊕ κ)) :
    Prop where
  pool : ∀ p, k.entry.hook = .inl (.awaitPool p) → w.overdue = [] → Executor.AllLeft (w.pools p)
  tracker : k.entry.hook = .inl .awaitTracker → ¬ u.Called k.entry →
    ∃ i, i ∉ w.waiters.listed ∧ Workshop.BegunAfter u.state w (AllAwaited before) i

structure Traced (u : Drains (workshop π κ)) (w : Workshop π) (r : Run (workshop π κ)) : Prop where
  waiting : ∀ d a before k, r.course = .calling d a → r.calls = before ++ [k] →
    Waiting u w before k a
  settled : ∀ before k after, r.calls = before ++ k :: after → k.returned.isSome = true →
    Settled u w before k

section

variable {u : Drains (workshop π κ)} {w w' : Workshop π} {r r' : Run (workshop π κ)}
  {before : List (Call (Shutdown.Standard π ⊕ κ))} {k : Call (Shutdown.Standard π ⊕ κ)}
  {a : Awaiting π}

theorem Waiting.onward (H : Waiting u w before k a) (h : Workshop.Onward w w') :
    Waiting u w' before k a where
  pool := H.pool
  tracker hhook hnew := by
    obtain ⟨i, due, budget, ha, hi⟩ := H.tracker hhook hnew
    exact ⟨i, due, budget, ha, hi.onward h⟩

theorem Settled.onward (H : Settled u w before k) (h : Workshop.Onward w w') :
    Settled u w' before k where
  pool p hhook htime := h.allLeft (H.pool p hhook (h.in_time htime))
  tracker hhook hnew := by
    obtain ⟨i, hi, hbegun⟩ := H.tracker hhook hnew
    obtain ⟨v, hv, -⟩ := id hbegun
    exact ⟨i, h.listed i (List.getElem?_eq_some_iff.mp hv).1 hi, hbegun.onward h⟩

theorem Traced.onward (H : Traced u w r) (h : Workshop.Onward w w') : Traced u w' r where
  waiting d a before k course hcalls := (H.waiting d a before k course hcalls).onward h
  settled before k after hcalls hk := (H.settled before k after hcalls hk).onward h

/-- A run that calls no other hook, and does not wait for one. -/
theorem Traced.of_calls (H : Traced u w r) (hcalls : r'.calls = r.calls)
    (hcourse : ∀ d a, r'.course ≠ .calling d a) : Traced u w r' where
  waiting d a _ _ course := absurd course (hcourse d a)
  settled before k after hcalls' := H.settled before k after (hcalls ▸ hcalls')

/-- A hook is called when those before it have returned. -/
theorem Traced.waiting_call {now : Nat} {e : Entry (Shutdown.Standard π ⊕ κ)} {budget : Nat}
    (H : Traced u w r) (hsince : Workshop.Onward u.state w)
    (hreturned : ∀ k ∈ r.calls, k.returned.isSome = true)
    (hcall : (workshop π κ).calls e.hook budget now w a w') :
    Waiting u w' r.calls ⟨e, budget, now, none⟩ a where
  pool p hhook := by
    dsimp only at hhook
    rw [hhook] at hcall
    cases hcall
    exact ⟨_, rfl⟩
  tracker hhook _ := by
    dsimp only at hhook
    rw [hhook] at hcall
    cases hcall
    refine ⟨w.waits.length, _, _, rfl, ⟨w.joined.length, w.strangers, w.ofJobs⟩,
      List.getElem?_concat_length .., hsince.joined.length_le, hsince.strangers,
      fun hawaited htime => ⟨rfl, fun p => ?_⟩⟩
    -- a pool that was awaited in time is empty for good, so that its jobs bring nothing later
    obtain ⟨l, hl, hpool⟩ := hawaited p
    obtain ⟨before, after, hsplit⟩ := List.append_of_mem hl
    exact (H.settled before l after hsplit (hreturned l hl)).pool p hpool htime

/-- A hook that returns in time has found what it waits for. -/
theorem Waiting.settled {now : Nat} (H : Waiting u w before k a)
    (hstaffed : ∀ p, ∃ name size, Executor.Staffed name size [] (w.pools p))
    (h : w.look now a = some w') (time : Nat) :
    Settled u w' before { k with returned := some time } where
  pool p hhook htime := by
    obtain ⟨due, rfl⟩ := H.pool p hhook
    rcases Workshop.look_pool h with ⟨hterminated, rfl⟩ | rfl
    · obtain ⟨name, size, hstaffed⟩ := hstaffed p
      exact hstaffed.isTerminated_iff.mp hterminated
    · exact absurd htime (Workshop.overdue_warn _ w)
  tracker hhook hnew := by
    obtain ⟨i, due, budget, rfl, hi⟩ := H.tracker hhook hnew
    refine ⟨i, ?_, hi.onward (Workshop.onward_look h)⟩
    rcases Workshop.look_tracker h with ⟨-, rfl⟩ | rfl
    · exact Workshop.not_listed_strike i w
    · exact Workshop.not_listed_strike i _

theorem Traced.advance {c c' : Scene (workshop π κ)} (H : Traced u c.state r)
    (hsince : Workshop.Onward u.state c.state)
    (hstaffed : ∀ p, ∃ name size, Executor.Staffed name size [] (Workshop.pools c.state p))
    (hreturned : ∀ d, r.course = .moving d → ∀ k ∈ r.calls, k.returned.isSome = true)
    (h : r.Advance c c' r') : Traced u c'.state r' := by
  have H' : Traced u c'.state r := H.onward (advance_kept h).1
  cases h with
  | start | miss | opens | closes | emits | finishes | panics =>
    exact H'.of_calls rfl fun _ _ course => nomatch course
  | calls masked moment course h hcall =>
    refine ⟨fun d a before k hcourse hcalls => ?_, fun before k after hcalls hk => ?_⟩
    · cases hcourse
      obtain ⟨rfl, rfl⟩ := List.append_singleton_inj.mp hcalls
      exact H.waiting_call hsince (hreturned _ course) hcall
    · rcases append_cons_eq_concat hcalls.symm with ⟨-, rfl, -⟩ | ⟨later, hcalls⟩
      · cases hk
      · exact H'.settled before k later hcalls hk
  | proceeds f course hcalls' h =>
    obtain ⟨rfl, rfl, rfl⟩ := h
    refine ⟨fun d a before k hcourse hcalls => ?_, H'.settled⟩
    cases hcourse
    exact H'.waiting _ _ before k course hcalls
  | @returns _ _ _ calls l course hcalls h =>
    refine ⟨fun _ _ _ _ course => (nomatch course), fun before k after hsplit hk => ?_⟩
    rcases append_cons_eq_concat hsplit.symm with ⟨rfl, rfl, -⟩ | ⟨later, hlater⟩
    · exact (H.waiting _ _ _ _ course hcalls).settled hstaffed h _
    · refine H'.settled before k (later ++ [l]) ?_ hk
      rw [hcalls, hlater, List.append_assoc, List.cons_append]

end

theorem step_traced {u s t : Drains (workshop π κ)} (hsince : Workshop.Onward u.state s.state)
    (hstaffed : ∀ p, ∃ name size, Executor.Staffed name size [] (Workshop.pools s.state p))
    (hreturned : ∀ r ∈ s.runs, ∀ d, r.course = .moving d → ∀ k ∈ r.calls, k.returned.isSome = true)
    (H : ∀ r ∈ s.runs, Traced u s.state r) (h : s.Step t) : ∀ r ∈ t.runs, Traced u t.state r := by
  have honward := (step_kept h).1
  cases h with
  | register | tick => exact H
  | begin =>
    intro r hr
    rcases List.mem_append.mp hr with hr | hr
    · exact H r hr
    · rw [List.mem_singleton.mp hr]
      exact ⟨fun _ _ _ _ course => (nomatch course),
        fun _ _ _ hcalls => absurd hcalls.symm (by simp)⟩
  | works h => exact fun r hr => (H r hr).onward honward
  | advance hruns h =>
    have hmem := hruns ▸ mem_between.mpr (.inl rfl)
    intro r hr
    rcases mem_between.mp hr with rfl | hr
    · exact (H _ hmem).advance hsince hstaffed (hreturned _ hmem) h
    · exact (H r (hruns ▸ mem_between.mpr (.inr hr))).onward honward

/-- The calls of the past say nothing of what began since. -/
theorem Traced.renew {u v : Drains (workshop π κ)} {w : Workshop π} {r : Run (workshop π κ)}
    (H : Traced v w r) (hcalled : ∀ k ∈ r.calls, u.Called k.entry) : Traced u w r where
  waiting d a before k course hcalls :=
    ⟨(H.waiting d a before k course hcalls).pool, fun _ hnew =>
      absurd (hcalled k (hcalls ▸ List.mem_concat_self)) hnew⟩
  settled before k after hcalls hk :=
    ⟨(H.settled before k after hcalls hk).pool, fun _ hnew =>
      absurd (hcalled k (hcalls ▸ mem_between.mpr (.inl rfl))) hnew⟩

section

variable {names : π → String} {sizes : π → Nat} {u s : Drains (workshop π κ)}
  {r : Run (workshop π κ)}

theorem traced_of_later
    (hu : Drains.Reachable timeout delay (Workshop.ofPools names sizes) u)
    (H : Drains.Later u s) (htraced : ∀ r ∈ u.runs, Traced u u.state r) :
    ∀ r ∈ s.runs, Traced u s.state r := by
  refine (H.keeps (Q := fun s => Drains.Later u s ∧ ∀ r ∈ s.runs, Traced u s.state r)
    (fun {s t} hs h => ⟨hs.1.step h, ?_⟩) ⟨.refl, htraced⟩).2
  have hreach : Drains.Reachable timeout delay _ s := hu.trans hs.1
  refine step_traced (onward_of_later hs.1) (fun p => ?_)
    (fun r hr d course => hreach.returned hr course) hs.2 h
  exact ⟨_, _, (Executor.inv_of_reachable (executor_of_reachable hreach p)).staffed⟩

theorem traced_of_reachable
    (hu : Drains.Reachable timeout delay (Workshop.ofPools names sizes) u)
    (H : Drains.Later u s) : ∀ r ∈ s.runs, Traced u s.state r :=
  -- the calls up to `u` are traced from the start, and say nothing of waits that begin after `u`
  traced_of_later hu H fun r hr =>
    (traced_of_later .refl hu (fun _ hr => nomatch hr) r hr).renew fun k hk => ⟨r, hr, k, hk, rfl⟩

/-- Each hook that a run has taken is settled when it goes on to another stage. -/
theorem settled_of_taken
    (hu : Drains.Reachable timeout delay (Workshop.ofPools names sizes) u) (H : Drains.Later u s)
    (hr : r ∈ s.runs) {d : Shutdown.Drain (Entry (Shutdown.Standard π ⊕ κ))}
    (course : r.course = .moving d) (current : d.current = none)
    {e : Entry (Shutdown.Standard π ⊕ κ)} (he : e ∈ r.taken) :
    ∃ before k after, r.calls = before ++ k :: after ∧ k.entry = e ∧
      Settled u s.state before k := by
  have h : Drains.Reachable timeout delay _ s := hu.trans H
  obtain ⟨k, hk, rfl⟩ := h.call_of_taken hr course current he
  obtain ⟨before, after, hcalls⟩ := List.append_of_mem hk
  exact ⟨before, k, after, hcalls, rfl,
    (traced_of_reachable hu H r hr).settled before k after hcalls (h.returned hr course k hk)⟩

/-- What the wait for the tracker tells of the units. -/
theorem Settled.units {before : List (Call (Shutdown.Standard π ⊕ κ))}
    {k : Call (Shutdown.Standard π ⊕ κ)} (hsettled : Settled u s.state before k)
    (hu : Workshop.Sound u.state) (hs : Workshop.Sound s.state)
    (honward : Workshop.Onward u.state s.state) (htime : Workshop.overdue s.state = [])
    (hhook : k.entry.hook = .inl .awaitTracker) (hnew : ¬ u.Called k.entry) :
    (∀ unit ∈ Workshop.joined u.state, ∃ f ∈ Workshop.finished s.state, f.job = unit ∧ f.Emitted) ∧
      (AllAwaited before → Workshop.strangers s.state = Workshop.strangers u.state →
        Workshop.members s.state = []) := by
  obtain ⟨i, hi, v, hv, hjoined, hstrangers, hquiet⟩ := hsettled.tracker hhook hnew
  refine ⟨fun unit hunit => ?_, fun hawaited hsame => ?_⟩
  · have hlt : unit.number < v.joined := Nat.lt_of_lt_of_le (hu.number_lt hunit) hjoined
    exact hs.finished_of_lt (hs.waited htime i v hv hi) (honward.joined.subset hunit) hlt
  · have hstrangers : Workshop.strangers s.state = v.strangers :=
      Nat.le_antisymm (hsame ▸ hstrangers) (hs.waits v (List.mem_of_getElem? hv)).2.1
    exact hs.quiet htime i v hv hi hstrangers (hquiet hawaited htime).1

/-- **What a drain has waited for.** Before the producers stop, the record of the stop is not
emitted, and if no wait has come to its deadline, then each pool is done that was awaited. Once the
tracker was awaited, all units have finished that had been joined before this wait. If all pools
were awaited before it and no unit has come from outside since, none is left. -/
theorem drained_of_reachable
    (h : Drains.Reachable timeout delay (Workshop.ofPools names sizes) s)
    (hr : r ∈ s.runs) {d : Shutdown.Drain (Entry (Shutdown.Standard π ⊕ κ))} {later : List Stage}
    (course : r.course = .moving d) (current : d.current = none)
    (upcoming : d.upcoming = .stopProducers :: later)
    (htime : Workshop.overdue s.state = []) :
    (∃ stop, d.carrier = .record stop ∧ stop.actionType = Shutdown.stopType ∧
      stop.emitted = false) ∧
    (s.runs = [r] → ∀ e ∈ s.registered, ∀ o ∈ r.opened, e.stage = o.stage → e.number < o.before →
      e ∈ r.taken) ∧
    (∀ e ∈ r.taken, ∀ p, e.hook = .inl (.awaitPool p) → (Workshop.pools s.state p).Done) ∧
    ∀ e ∈ r.taken, e.hook = .inl .awaitTracker → ∀ u : Drains (workshop π κ),
      Drains.Reachable timeout delay (Workshop.ofPools names sizes) u →
      Drains.Later u s → ¬ u.Called e →
        (∀ unit ∈ Workshop.joined u.state, ∃ f ∈ Workshop.finished s.state,
          f.job = unit ∧ f.Emitted) ∧
        ((∀ p, ∃ e' ∈ r.taken, e'.hook = .inl (.awaitPool p) ∧ e'.Precedes e) →
          Workshop.strangers s.state = Workshop.strangers u.state →
            (Workshop.tracker s.state).count = 0 ∧
            ∀ unit ∈ Workshop.joined s.state, ∃ f ∈ Workshop.finished s.state,
              f.job = unit ∧ f.Emitted) := by
  have hsound := sound_of_reachable h
  refine ⟨?_, ?_, ?_, ?_⟩
  · have hrecording := h.recording r hr
    rw [course] at hrecording
    exact hrecording ⟨_, upcoming ▸ List.mem_cons_self, rfl⟩
  · intro honly e he o ho hstage hlt
    obtain ⟨r', hr', htaken⟩ := h.taken_of_lt (List.mem_flatMap.mpr ⟨r, hr, ho⟩) he hstage hlt
    rw [honly] at hr'
    exact List.mem_singleton.mp hr' ▸ htaken
  · intro e he p hhook
    obtain ⟨before, k, after, -, rfl, hsettled⟩ := settled_of_taken .refl h hr course current he
    exact (Executor.inv_of_reachable (executor_of_reachable h p)).done (hsettled.pool p hhook htime)
  · intro e he hhook u hu H hnew
    obtain ⟨before, k, after, hcalls, rfl, hsettled⟩ := settled_of_taken hu H hr course current he
    obtain ⟨hunits, hnone⟩ :=
      hsettled.units (sound_of_reachable hu) hsound (onward_of_later H) htime
      hhook hnew
    refine ⟨hunits, fun hpools hsame => ?_⟩
    have hawaited : AllAwaited before := by
      intro p
      obtain ⟨e', he', hhook', hprecedes⟩ := hpools p
      obtain ⟨l, hl, rfl⟩ := h.call_of_taken hr course current he'
      exact ⟨l, h.mem_before_of_precedes hr hcalls hl hprecedes, hhook'⟩
    have hnil : Workshop.members s.state = [] := hnone hawaited hsame
    refine ⟨by rw [hsound.count, hnil, List.length_nil], ?_⟩
    intro unit hunit
    exact hsound.finished_of_lt (fun m hm => absurd (hnil ▸ hm) List.not_mem_nil) hunit
      (hsound.number_lt hunit)

end

/-- A service with one pool of one worker. -/
def oneWorker : Workshop Unit := .ofPools (fun _ => "jobs") fun _ => 1

/-- The pool is awaited before the tracker. Its job brings a unit, which finishes while the tracker
is awaited. -/
theorem drained_unitOfJob : ∃ s : Drains (workshop Unit Empty),
    Drains.Reachable 25000 none oneWorker s ∧
    ∃ r ∈ s.runs, ∃ d later, r.course = .moving d ∧ d.current = none ∧
      d.upcoming = .stopProducers :: later ∧ Workshop.overdue s.state = [] ∧
      (∃ stop, d.carrier = .record stop ∧ stop.emitted = false) ∧
      (Workshop.pools s.state ()).Done ∧ (Workshop.tracker s.state).count = 0 ∧
      ∃ f ∈ Workshop.finished s.state, f.job = ⟨0, ⟨"", ""⟩, "late"⟩ ∧ f.Emitted := by
  have o : Occasion := ⟨.empty, "trace", ⟨0, 0⟩⟩
  have one : ([0] : List Nat) = [] ++ 0 :: [] := rfl
  have h : Drains.Reachable 25000 none oneWorker
      (Drains.start (workshop Unit Empty) 25000 none oneWorker) := .refl
  have h := h.step (.register .stopExecutors (.inl (.closePool ())))
  have h := h.step (.register .awaitExecutors (.inl (.awaitPool ())))
  have h := h.step (.register .stopExecutors (.inl .closeTracker))
  have h := h.step (.register .awaitExecutors (.inl .awaitTracker))
  have h := h.step (step_of_work (.pool () (.inr (.submit ⟨"", ""⟩ "work" rfl))))
  have h := h.step .begin
  have h := h.step (.only rfl (.start .empty "id" ⟨0, 0⟩ rfl (Nat.le_refl _) rfl))
  have h := h.step (.only rfl (.opens .empty ⟨0, 0⟩ rfl rfl))
  have h := h.step (.only rfl (.opens .empty ⟨0, 0⟩ rfl rfl))
  have h := h.step (.only rfl (.opens .empty ⟨0, 0⟩ rfl rfl))
  have h := h.step (.only rfl (.calls .empty ⟨0, 0⟩ rfl rfl rfl))
  have h := h.step (.only rfl (.returns rfl (List.nil_append _).symm rfl))
  have h := h.step (.only rfl (.calls .empty ⟨0, 0⟩ rfl rfl rfl))
  have h := h.step (.only rfl (.returns rfl (rfl : _ = [_] ++ [_]) rfl))
  have h := h.step (.only rfl (.closes .empty ⟨0, 0⟩ rfl rfl))
  have h := h.step (.only rfl (.opens .empty ⟨0, 0⟩ rfl rfl))
  have h := h.step (.only rfl (.calls .empty ⟨0, 0⟩ rfl rfl rfl))
  have h := h.step (step_of_work (.pool () (.inl (.inl (.join one)))))
  have h := h.step (step_of_work (.pool () (.inl (.inl (@Executor.Serve.take _ 0 _ _ rfl)))))
  have h := h.step (step_of_work
    (.pool () (.inl (.inr (.begin "id" o (List.nil_append _).symm)))))
  have h := h.step (step_of_work (.join (.job ()) ⟨"", ""⟩ "late" (List.cons_ne_nil _ _)))
  have h := h.step (step_of_work
    (.pool () (.inl (.inr (.finish .returned o (List.nil_append _).symm)))))
  have h := h.step (step_of_work (.pool () (.inl (.inl (.join one)))))
  have h := h.step (step_of_work (.pool () (.inl (.inl (@Executor.Serve.leave _ 0 _ rfl)))))
  have h := h.step (.only rfl (.returns rfl (rfl : _ = [_, _] ++ [_]) rfl))
  have H {u : Drains (workshop Unit Empty)} (_ : Drains.Reachable 25000 none oneWorker u) :
      Drains.Later u u := .refl
  have H := (H h).step (.only rfl (.calls .empty ⟨0, 0⟩ rfl rfl rfl))
  have H := H.step (step_of_work (.begin "id" o (List.nil_append _).symm))
  have H := H.step (step_of_work (.finish .returned o (List.nil_append _).symm))
  have H := H.step (.only rfl (.returns rfl (rfl : _ = [_, _, _] ++ [_]) rfl))
  have H := H.step (.only rfl (.closes .empty ⟨0, 0⟩ rfl rfl))
  obtain ⟨⟨stop, hstop, -, hemitted⟩, -, hpool, htracker⟩ :=
    drained_of_reachable (h.trans H) (.head _) rfl rfl rfl rfl
  obtain ⟨hunits, hall⟩ := htracker ⟨3, .awaitExecutors, .inl .awaitTracker⟩
    (.tail _ (.tail _ (.tail _ (.head _)))) rfl _ h H
    (Drains.Reachable.not_called_of_rest h (.head _) (.head _))
  obtain ⟨hcount, -⟩ := hall
    (fun _ => ⟨⟨1, .awaitExecutors, .inl (.awaitPool ())⟩, .tail _ (.tail _ (.head _)), rfl,
      .inr ⟨rfl, by decide⟩⟩) rfl
  have hpool := hpool _ (.tail _ (.tail _ (.head _))) () rfl
  exact ⟨_, h.trans H, _, .head _, _, _, rfl, rfl, rfl, rfl, ⟨stop, hstop, hemitted⟩, hpool,
    hcount, hunits _ (.head _)⟩

/-- The tracker is awaited before the pool, as they were registered, and its wait is over when a job
of the pool brings a unit. No wait comes to its deadline, and the unit is left. -/
theorem left_unitOfJob : ∃ s : Drains (workshop Unit Empty),
    Drains.Reachable 25000 none oneWorker s ∧
    (s.registered.map fun e => (e.stage, e.hook)) =
      (Shutdown.Standard.tracker ++ Shutdown.Standard.pool ()).map (Prod.map id .inl) ∧
    ∃ r d later, s.runs = [r] ∧ r.course = .moving d ∧ d.current = none ∧
      d.upcoming = .stopProducers :: later ∧ Workshop.overdue s.state = [] ∧
      (Workshop.tracker s.state).count = 1 := by
  have o : Occasion := ⟨.empty, "trace", ⟨0, 0⟩⟩
  have one : ([0] : List Nat) = [] ++ 0 :: [] := rfl
  have h : Drains.Reachable 25000 none oneWorker
      (Drains.start (workshop Unit Empty) 25000 none oneWorker) := .refl
  have h := h.step (.register .stopExecutors (.inl .closeTracker))
  have h := h.step (.register .awaitExecutors (.inl .awaitTracker))
  have h := h.step (.register .stopExecutors (.inl (.closePool ())))
  have h := h.step (.register .awaitExecutors (.inl (.awaitPool ())))
  have h := h.step (step_of_work (.pool () (.inr (.submit ⟨"", ""⟩ "work" rfl))))
  have h := h.step .begin
  have h := h.step (.only rfl (.start .empty "id" ⟨0, 0⟩ rfl (Nat.le_refl _) rfl))
  have h := h.step (.only rfl (.opens .empty ⟨0, 0⟩ rfl rfl))
  have h := h.step (.only rfl (.opens .empty ⟨0, 0⟩ rfl rfl))
  have h := h.step (.only rfl (.opens .empty ⟨0, 0⟩ rfl rfl))
  have h := h.step (.only rfl (.calls .empty ⟨0, 0⟩ rfl rfl rfl))
  have h := h.step (.only rfl (.returns rfl (List.nil_append _).symm rfl))
  have h := h.step (.only rfl (.calls .empty ⟨0, 0⟩ rfl rfl rfl))
  have h := h.step (.only rfl (.returns rfl (rfl : _ = [_] ++ [_]) rfl))
  have h := h.step (.only rfl (.closes .empty ⟨0, 0⟩ rfl rfl))
  have h := h.step (.only rfl (.opens .empty ⟨0, 0⟩ rfl rfl))
  have h := h.step (.only rfl (.calls .empty ⟨0, 0⟩ rfl rfl rfl))
  have h := h.step (.only rfl (.returns rfl (rfl : _ = [_, _] ++ [_]) rfl))
  have h := h.step (.only rfl (.calls .empty ⟨0, 0⟩ rfl rfl rfl))
  have h := h.step (step_of_work (.pool () (.inl (.inl (.join one)))))
  have h := h.step (step_of_work (.pool () (.inl (.inl (@Executor.Serve.take _ 0 _ _ rfl)))))
  have h := h.step (step_of_work
    (.pool () (.inl (.inr (.begin "id" o (List.nil_append _).symm)))))
  have h := h.step (step_of_work (.join (.job ()) ⟨"", ""⟩ "late" (List.cons_ne_nil _ _)))
  have h := h.step (step_of_work
    (.pool () (.inl (.inr (.finish .returned o (List.nil_append _).symm)))))
  have h := h.step (step_of_work (.pool () (.inl (.inl (.join one)))))
  have h := h.step (step_of_work (.pool () (.inl (.inl (@Executor.Serve.leave _ 0 _ rfl)))))
  have h := h.step (.only rfl (.returns rfl (rfl : _ = [_, _, _] ++ [_]) rfl))
  have h := h.step (.only rfl (.closes .empty ⟨0, 0⟩ rfl rfl))
  exact ⟨_, h, rfl, _, _, _, rfl, rfl, rfl, rfl, rfl, rfl⟩

end Logbook.Work
