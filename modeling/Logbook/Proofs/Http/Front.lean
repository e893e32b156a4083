import Logbook.Http.InFlight
import Logbook.Proofs.Http.Custody
import Logbook.Proofs.Shutdown.Runs
import Logbook.Shutdown.Standard

/-! The requests of a server while its sequencer drains. Requests come at any time, go on in any
order, and are let in by the flags of the sequencer. The hook that awaits the last request looks at
their number whenever it likes; any other hook does what it wants.

A request is counted from its admission to its answer. One that is dropped while its handler runs,
as when the caller hangs up, has no step here: the guard that counts it would leave with it, without
an answer. So the number is that of the requests that are run to their answers. -/

namespace Logbook.Http

open Shutdown (Surroundings Standard Drains)

/-- A request that was admitted. -/
structure Visit where
  request : Request
  tracked : Tracked

/-- The requests of a server. -/
structure Front where
  inFlight : InFlight Nat
  visits : List Visit
  /-- What was emitted of the requests that were refused. -/
  refusals : List Record.Emission
  /-- The results of those who waited for the last request. -/
  waits : List Bool

/-- The handler runs, or its reply is not answered yet. -/
def Tracked.isRunning (s : Tracked) : Bool :=
  match s.phase with
  | .answered _ => false
  | .running | .finished _ => true

namespace Front

def empty : Front := ⟨.empty, [], [], []⟩

/-- A request comes. It is answered at once, or its handler begins. -/
def arrive (flags : Shutdown.Flags) (masked : Trace.Mask.Registry) (id : String)
    (begun now : Moment) (request : Request) (f : Front) : Option Response × Front :=
  match request.admission flags with
  | .passes => (some (Request.outgoing request.method
      (Request.health request.method flags.shutdown)), f)
  | .refused => (some (Request.outgoing request.method Request.refused),
      { f with refusals := f.refusals ++ (request.turnAway masked id begun now).toList })
  | .admitted => (none,
      { f with
        inFlight := f.inFlight.enter
        visits := f.visits ++ [⟨request, .admitted (request.begin masked id begun)⟩] })

/-- A move at the front, under the flags. Whoever is answered leaves. -/
inductive Step (flags : Shutdown.Flags) (f : Front) : Front → Prop where
  | arrives (masked : Trace.Mask.Registry) (id : String) (begun now : Moment)
      (request : Request) : Step flags f (f.arrive flags masked id begun now request).2
  | moves {before after : List Visit} {v : Visit} {t : Tracked} {m : Move}
      (hvisits : f.visits = before ++ v :: after) (hm : ∀ o, m ≠ .complete o)
      (h : Tracked.step m v.tracked = some t) :
      Step flags f { f with visits := before ++ { v with tracked := t } :: after }
  | answers {before after : List Visit} {v : Visit} {t : Tracked} (o : Occasion)
      (hvisits : f.visits = before ++ v :: after)
      (h : Tracked.step (.complete o) v.tracked = some t) :
      Step flags f
        { f with inFlight := f.inFlight.leave.2,
                 visits := before ++ { v with tracked := t } :: after }

end Front

/-- A hook that was called: a wait for the last request, or something else. -/
inductive Attendance where
  | waiting (waiter due : Nat)
  | other

/-- The requests of a server around the drains of its sequencer, which may have hooks of any other
kind `κ`. -/
def frontier (π κ : Type) : Surroundings (Standard π ⊕ κ) where
  State := Front
  Active := Attendance
  works flags _ f f' := f.Step flags f'
  calls hook budget now f a f' := f' = f ∧
    match hook with
    | .inl .awaitRequests => ∃ waiter, a = .waiting waiter (now + budget)
    | _ => a = .other
  proceeds _ now a f a' f' := a' = a ∧
    match a with
    | .waiting waiter due => ∃ inFlight, f.inFlight.look waiter due now = (none, inFlight) ∧
        f' = { f with inFlight := inFlight }
    | .other => f' = f
  returns _ now a f f' :=
    match a with
    | .waiting waiter due => ∃ result inFlight,
        f.inFlight.look waiter due now = (some result, inFlight) ∧
          f' = { f with inFlight := inFlight, waits := f.waits ++ [result] }
    | .other => f' = f
  panics _ _ a f f' := a = .other ∧ f' = f
  waits _ now a f :=
    match a with
    | .waiting waiter due => (f.inFlight.look waiter due now).1 = none
    | .other => True
  exists_calls hook budget now f := by
    rcases hook with (_ | _) | _
    case inl.awaitRequests => exact ⟨.waiting 0 (now + budget), f, rfl, 0, rfl⟩
    all_goals exact ⟨.other, f, rfl, rfl⟩

/-! ## Requests and their number -/

/-- The request is not answered and its record is in one place, or it is settled who emits it. -/
def Tracked.Accounted (s : Tracked) : Prop :=
  s.isRunning = true ∧ (∃ r, s.Open r) ∨ s.isRunning = false ∧ ∃ reply e r, s.Settled reply e r

namespace Tracked

variable {s t : Tracked} {m : Move}

theorem isRunning_of_open {r : Record} (H : Open r s) : s.isRunning = true := by
  have phase : ∀ reply, s.phase ≠ .answered reply := by cases H <;> assumption
  unfold isRunning
  split
  · exact absurd ‹_› (phase _)
  · rfl
  · rfl

theorem isRunning_of_settled {reply : Reply} {e : Emitter} {r : Record} (H : Settled reply e r s) :
    s.isRunning = false := by
  rw [isRunning, H.phase]

theorem accounted_admitted (r : Record) : (admitted r).Accounted := .inl ⟨rfl, r, open_admitted r⟩

/-- Only the answer ends a request. -/
theorem accounted_step (H : s.Accounted) (hm : ∀ o, m ≠ .complete o) (h : step m s = some t) :
    t.Accounted ∧ t.isRunning = s.isRunning := by
  rcases H with ⟨hs, r, H⟩ | ⟨hs, reply, e, r, H⟩
  · rcases open_step H h with H | ⟨o, _, _, rfl, _⟩
    · exact ⟨.inl ⟨isRunning_of_open H, _, H⟩, (isRunning_of_open H).trans hs.symm⟩
    · exact absurd rfl (hm o)
  · have H := settled_step H h
    exact ⟨.inr ⟨isRunning_of_settled H, _, _, _, H⟩, (isRunning_of_settled H).trans hs.symm⟩

theorem accounted_answer {o : Occasion} (H : s.Accounted) (h : step (.complete o) s = some t) :
    t.Accounted ∧ s.isRunning = true ∧ t.isRunning = false := by
  rcases H with ⟨hs, r, H⟩ | ⟨-, reply, e, r, H⟩
  · obtain ⟨reply, e, -, H⟩ := settled_complete H h
    exact ⟨.inr ⟨isRunning_of_settled H, _, _, _, H⟩, hs, isRunning_of_settled H⟩
  · cases (step_complete_of_answered H.phase).symm.trans h

end Tracked

namespace Front

/-- How many requests are not answered. -/
def running (f : Front) : Nat := f.visits.countP (·.tracked.isRunning)

structure Sound (f : Front) : Prop where
  count : f.inFlight.count = f.running
  visits : ∀ v ∈ f.visits, v.tracked.Accounted

variable {flags : Shutdown.Flags} {f f' : Front}

theorem countP_between {before after : List Visit} {v : Visit} :
    (before ++ v :: after).countP (·.tracked.isRunning) =
      (before ++ after).countP (·.tracked.isRunning) +
        if v.tracked.isRunning then 1 else 0 := by
  simp only [List.countP_append, List.countP_cons]
  omega

theorem Sound.step (H : f.Sound) (h : f.Step flags f') : f'.Sound := by
  cases h with
  | arrives masked id begun now request =>
    unfold arrive
    split
    · exact H
    · exact ⟨H.count, H.visits⟩
    · refine ⟨?_, fun v hv => ?_⟩
      · rw [running, List.countP_append, ← running, ← H.count]
        rfl
      · rcases List.mem_append.mp hv with hv | hv
        · exact H.visits v hv
        · rw [List.mem_singleton.mp hv]
          exact Tracked.accounted_admitted _
  | @moves before after v t m hvisits hm h =>
    have hv : v.tracked.Accounted := H.visits v (hvisits ▸ mem_between.mpr (.inl rfl))
    obtain ⟨ht, hrunning⟩ := Tracked.accounted_step hv hm h
    refine ⟨?_, fun u hu => ?_⟩
    · rw [H.count, running, running, hvisits, countP_between, countP_between, hrunning]
    · rcases mem_between.mp hu with rfl | hu
      · exact ht
      · exact H.visits u (hvisits ▸ mem_between.mpr (.inr hu))
  | @answers before after v t o hvisits h =>
    have hv : v.tracked.Accounted := H.visits v (hvisits ▸ mem_between.mpr (.inl rfl))
    obtain ⟨ht, hrunning, hdone⟩ := Tracked.accounted_answer hv h
    refine ⟨?_, fun u hu => ?_⟩
    · rw [InFlight.count_leave, H.count, running, running, hvisits, countP_between,
        countP_between, hrunning, hdone]
      rfl
    · rcases mem_between.mp hu with rfl | hu
      · exact ht
      · exact H.visits u (hvisits ▸ mem_between.mpr (.inr hu))

/-- After the delay nobody comes in, so that no request is in flight again. -/
theorem Step.idle (h : f.Step flags f') (hflags : flags.afterDelay = true)
    (hidle : f.inFlight.count = 0) :
    f'.inFlight.count = 0 ∧ f'.visits.length = f.visits.length := by
  cases h with
  | arrives masked id begun now request =>
    unfold arrive Request.admission
    rw [if_pos hflags]
    split
    · exact ⟨hidle, rfl⟩
    · exact ⟨hidle, rfl⟩
    · rename_i hadmitted
      split at hadmitted <;> cases hadmitted
  | moves hvisits => exact ⟨hidle, by simp [hvisits]⟩
  | answers o hvisits => exact ⟨by rw [InFlight.count_leave, hidle], by simp [hvisits]⟩

theorem Step.waits_eq (h : f.Step flags f') : f'.waits = f.waits := by
  cases h with
  | arrives => unfold arrive; split <;> rfl
  | moves | answers => rfl

end Front

/-! ## Drains and requests -/

variable {π κ : Type}

/-- Hooks leave the requests alone; a wait for the last one ends well only when there is none. -/
theorem frontier_advance {c c' : Shutdown.Scene (frontier π κ)}
    {r r' : Shutdown.Run (frontier π κ)} (h : r.Advance c c' r') :
    c'.state.visits = c.state.visits ∧ c'.state.inFlight.count = c.state.inFlight.count ∧
      (true ∈ c'.state.waits → true ∈ c.state.waits ∨
        c.state.inFlight.count = 0 ∧ ∀ due, r.course ≠ .delaying due) := by
  cases h with
  | start | miss | opens | closes | emits | finishes => exact ⟨rfl, rfl, .inl⟩
  | calls _ _ _ _ hcall =>
    obtain ⟨rfl, -⟩ := hcall
    exact ⟨rfl, rfl, .inl⟩
  | @proceeds d active _ _ _ _ _ _ _ h =>
    obtain ⟨-, h⟩ := h
    cases active with
    | waiting waiter due =>
      obtain ⟨inFlight, hlook, rfl⟩ := h
      exact ⟨rfl, InFlight.count_look hlook, .inl⟩
    | other => cases h; exact ⟨rfl, rfl, .inl⟩
  | @returns d active _ _ _ course _ h =>
    cases active with
    | waiting waiter due =>
      obtain ⟨result, inFlight, hlook, rfl⟩ := h
      refine ⟨rfl, InFlight.count_look hlook, fun hmem => ?_⟩
      rcases List.mem_append.mp hmem with hmem | hmem
      · exact .inl hmem
      · obtain rfl := List.mem_singleton.mp hmem
        exact .inr ⟨InFlight.count_of_look hlook,
          fun _ course' => nomatch course.symm.trans course'⟩
    | other => cases h; exact ⟨rfl, rfl, .inl⟩
  | panics _ _ h => obtain ⟨-, rfl⟩ := h; exact ⟨rfl, rfl, .inl⟩

/-- The requests of a server while it is drained. -/
structure Attended (s : Drains (frontier π κ)) : Prop where
  flagged : s.Flagged
  sound : Front.Sound s.state
  idle : true ∈ s.state.waits →
    s.sequencer.flags.afterDelay = true ∧ s.state.inFlight.count = 0

theorem Attended.step {s t : Drains (frontier π κ)} (H : Attended s) (h : Drains.Step s t) :
    Attended t := by
  refine ⟨H.flagged.step h, ?_, ?_⟩
  · cases h with
    | register | begin | tick => exact H.sound
    | works h => exact H.sound.step h
    | advance hruns h =>
      obtain ⟨hvisits, hcount, -⟩ := frontier_advance h
      refine ⟨?_, fun v hv => H.sound.visits v (hvisits ▸ hv)⟩
      refine hcount.trans (H.sound.count.trans ?_)
      exact congrArg (List.countP fun v : Visit => v.tracked.isRunning) hvisits.symm
  · intro hmem
    have hidle : true ∈ s.state.waits →
        t.sequencer.flags.afterDelay = true ∧ s.state.inFlight.count = 0 :=
      fun hmem => ⟨h.afterDelay (H.idle hmem).1, (H.idle hmem).2⟩
    cases h with
    | register | begin | tick => exact hidle hmem
    | works h =>
      rw [h.waits_eq] at hmem
      obtain ⟨hflags, hcount⟩ := H.idle hmem
      exact ⟨hflags, (h.idle hflags hcount).1⟩
    | advance hruns h =>
      obtain ⟨-, hcount, hwaits⟩ := frontier_advance h
      rw [hcount]
      rcases hwaits hmem with hmem | ⟨hzero, hpast⟩
      · exact hidle hmem
      · refine ⟨?_, hzero⟩
        have hflags := H.flagged.afterDelay.mpr ⟨_, hruns ▸ mem_between.mpr (.inl rfl), hpast⟩
        rcases h.flags_cases.2 with ⟨hsame, -⟩ | hset
        · rw [hsame]; exact hflags
        · rw [hset]

variable {timeout : Nat} {delay : Option Nat} {s t : Drains (frontier π κ)}

end Logbook.Http
