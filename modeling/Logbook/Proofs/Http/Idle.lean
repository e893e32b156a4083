import Logbook.Http.InFlight

/-! Waits for a moment at which no request is in flight, in parts between which other threads may
come. A wait lists itself first and looks at the number then, and the last request lowers the number
first and rings then. So a wait that sleeps has seen a request, and is listed for the bell of the
last one (`Lobby.Fits.busy`): it sleeps through no moment at which the requests are gone. -/

namespace Logbook

namespace Http

namespace InFlight

variable {ι : Type}

def lower (f : InFlight ι) : InFlight ι := { f with count := f.count - 1 }

def ring (f : InFlight ι) : InFlight ι := { f with waiters := f.waiters.ring.2 }

/-- A request leaves in two parts if it is the last one. -/
theorem leave_eq {f : InFlight ι} (h : 0 < f.count) :
    f.leave.2 = if f.count = 1 then f.lower.ring else f.lower := by
  by_cases hone : f.count = 1
  · simp [leave, lower, ring, hone]
  · have hmore : f.count - 1 ≠ 0 := by omega
    simp [leave, lower, hone, hmore]

end InFlight

namespace Lobby

/-- How a wait ended. -/
structure Answer where
  result : Bool
  time : Nat
  /-- How many requests were in flight. -/
  inside : Nat

/-- Where a wait stands. -/
inductive Phase where
  /-- It lists itself next. -/
  | lists
  /-- It looks next whether requests are in flight. -/
  | checks
  /-- It sleeps until the bell rings or its deadline comes. -/
  | sleeps
  /-- Its deadline has come, and it looks for the last time next. -/
  | asks
  | ended (answer : Answer)

structure Wait where
  deadline : Nat
  phase : Phase

end Lobby

/-- Requests in flight, and those who wait until there are none. -/
structure Lobby where
  inFlight : InFlight Nat
  /-- Requests that have entered and not left. -/
  inside : Nat
  /-- Requests that were the last ones to leave and have not rung the bell yet. -/
  ringing : Nat
  now : Nat
  /-- All waits; each is listed with its place. -/
  waits : List Lobby.Wait

namespace Lobby

/-! ## Moves -/

def empty : Lobby := ⟨.empty, 0, 0, 0, []⟩

def enter (s : Lobby) : Lobby := { s with inFlight := s.inFlight.enter, inside := s.inside + 1 }

/-- A request lowers the number; the last one is about to ring. -/
def leave (s : Lobby) : Lobby :=
  { s with
    inFlight := s.inFlight.lower
    inside := s.inside - 1
    ringing := if s.inFlight.count = 1 then s.ringing + 1 else s.ringing }

def ring (s : Lobby) : Lobby := { s with inFlight := s.inFlight.ring, ringing := s.ringing - 1 }

def call (budget : Nat) (s : Lobby) : Lobby :=
  { s with waits := s.waits ++ [⟨s.now + budget, .lists⟩] }

/-- A wait in its place comes to a phase and changes the list. -/
def place (i : Nat) (w : Wait) (waiters : Waiters Nat) (s : Lobby) : Lobby :=
  { s with inFlight := { s.inFlight with waiters := waiters }, waits := s.waits.set i w }

/-- The next move of a wait: the phase that it comes to, and who is listed then. A bell that has
rung counts before the deadline. -/
inductive Move (s : Lobby) (i : Nat) (w : Wait) : Phase → Waiters Nat → Prop where
  | lists (h : w.phase = .lists) : Move s i w .checks (s.inFlight.waiters.enlist i)
  | idle (h : w.phase = .checks) (hcount : s.inFlight.count = 0) :
      Move s i w (.ended ⟨true, s.now, s.inside⟩) (s.inFlight.waiters.strike i)
  | busy (h : w.phase = .checks) (hcount : 0 < s.inFlight.count) :
      Move s i w .sleeps s.inFlight.waiters
  | wakes (h : w.phase = .sleeps) (hlisted : i ∉ s.inFlight.waiters.listed) :
      Move s i w .lists s.inFlight.waiters
  | due (h : w.phase = .sleeps) (hlisted : i ∈ s.inFlight.waiters.listed)
      (hdue : w.deadline ≤ s.now) : Move s i w .asks (s.inFlight.waiters.strike i)
  | asks (h : w.phase = .asks) :
      Move s i w (.ended ⟨s.inFlight.count = 0, s.now, s.inside⟩) s.inFlight.waiters

/-- No wait can move, and nobody is about to ring. -/
structure Still (s : Lobby) : Prop where
  ringing : s.ringing = 0
  waits : ∀ i w, s.waits[i]? = some w → ∀ p waiters, ¬ Move s i w p waiters

inductive Event where
  | enters
  | leaves
  | rings
  | calls
  | moves (i : Nat)
  | passes
  deriving DecidableEq

/-- Threads move one at a time, each as far as the next part. Time passes when none can move. -/
inductive Step (s : Lobby) : Event → Lobby → Prop where
  | enters : Step s .enters s.enter
  | leaves (h : 0 < s.inside) : Step s .leaves s.leave
  | rings (h : 0 < s.ringing) : Step s .rings s.ring
  | calls (budget : Nat) : Step s .calls (s.call budget)
  | moves {i : Nat} {w : Wait} {p : Phase} {waiters : Waiters Nat} (hw : s.waits[i]? = some w)
      (h : Move s i w p waiters) : Step s (.moves i) (s.place i { w with phase := p } waiters)
  | passes (h : s.Still) : Step s .passes { s with now := s.now + 1 }

/-- A run with what happens in it. -/
inductive Run (s : Lobby) : List Event → Lobby → Prop where
  | refl : Run s [] s
  | step {events : List Event} {e : Event} {t u : Lobby} (H : Run s events t) (h : Step t e u) :
      Run s (events ++ [e]) u

def Reachable (s : Lobby) : Prop := ∃ events, Run empty events s

def Phase.IsOpen (p : Phase) : Prop := ∀ answer, p ≠ .ended answer

def Phase.result? : Phase → Option Bool
  | .ended a => some a.result
  | .lists | .checks | .sleeps | .asks => none

variable {s t : Lobby} {i j : Nat} {w : Wait} {p : Phase} {waiters : Waiters Nat}

/-! ## Single moves -/

theorem waits_place_self (hw : s.waits[i]? = some w) (w' : Wait) (waiters : Waiters Nat) :
    (s.place i w' waiters).waits[i]? = some w' := by
  obtain ⟨hlt, -⟩ := List.getElem?_eq_some_iff.mp hw
  exact List.getElem?_set_self hlt

theorem waits_place_of_ne (h : i ≠ j) (w : Wait) (waiters : Waiters Nat) :
    (s.place i w waiters).waits[j]? = s.waits[j]? :=
  List.getElem?_set_ne h

/-- A call begins a wait and leaves the others. -/
theorem waits_call {budget : Nat} (hw : (s.call budget).waits[i]? = some w) :
    s.waits[i]? = some w ∨ i = s.waits.length ∧ w = ⟨s.now + budget, .lists⟩ := by
  rw [call, List.getElem?_append] at hw
  split at hw
  · exact .inl hw
  · next hle =>
    obtain ⟨hlt, rfl⟩ := List.getElem?_eq_some_iff.mp hw
    rw [List.length_singleton] at hlt
    exact .inr ⟨by omega, List.getElem_singleton hlt⟩

theorem waits_call_of_some (hw : s.waits[i]? = some w) (budget : Nat) :
    (s.call budget).waits[i]? = some w := by
  obtain ⟨hlt, -⟩ := List.getElem?_eq_some_iff.mp hw
  exact (List.getElem?_append_left hlt).trans hw

/-- A wait lists and strikes nobody else. -/
theorem Move.mem_listed_of_ne (h : Move s i w p waiters) (hne : j ≠ i) :
    j ∈ waiters.listed ↔ j ∈ s.inFlight.waiters.listed := by
  cases h with
  | lists => rw [Waiters.mem_enlist, or_iff_left hne]
  | idle | due => rw [Waiters.mem_strike, and_iff_left hne]
  | busy | wakes | asks => exact Iff.rfl

theorem Move.listed_lt (h : Move s i w p waiters) (hw : s.waits[i]? = some w)
    (H : ∀ j ∈ s.inFlight.waiters.listed, j < s.waits.length) :
    ∀ j ∈ waiters.listed, j < s.waits.length := by
  intro j hj
  by_cases hne : j = i
  · exact hne ▸ (List.getElem?_eq_some_iff.mp hw).1
  · exact H j ((h.mem_listed_of_ne hne).mp hj)

theorem Move.isOpen (h : Move s i w p waiters) : w.phase.IsOpen := by
  intro answer hended
  cases h with
  | lists h | idle h | busy h | wakes h | due h | asks h => cases hended.symm.trans h

/-- An open wait can move, unless it sleeps. -/
theorem Wait.move_or_sleeps (hopen : w.phase.IsOpen) (s : Lobby) (i : Nat) :
    (∃ p waiters, Move s i w p waiters) ∨
      w.phase = .sleeps ∧ i ∈ s.inFlight.waiters.listed ∧ s.now < w.deadline := by
  cases hphase : w.phase with
  | lists => exact .inl ⟨_, _, .lists hphase⟩
  | checks =>
    rcases Nat.eq_zero_or_pos s.inFlight.count with hcount | hcount
    · exact .inl ⟨_, _, .idle hphase hcount⟩
    · exact .inl ⟨_, _, .busy hphase hcount⟩
  | sleeps =>
    by_cases hlisted : i ∈ s.inFlight.waiters.listed
    · by_cases hdue : w.deadline ≤ s.now
      · exact .inl ⟨_, _, .due hphase hlisted hdue⟩
      · exact .inr ⟨rfl, hlisted, Nat.not_le.mp hdue⟩
    · exact .inl ⟨_, _, .wakes hphase hlisted⟩
  | asks => exact .inl ⟨_, _, .asks hphase⟩
  | ended answer => exact absurd hphase (hopen answer)

/-! ## What every wait keeps -/

/-- The answer is right, and comes at the deadline at the latest. -/
structure Answer.IsRight (deadline : Nat) (a : Answer) : Prop where
  result : a.result = true ↔ a.inside = 0
  time : a.time ≤ deadline
  late : a.result = false → a.time = deadline

/-- Requests are in flight, or the last one is about to ring. -/
def IsBusy (s : Lobby) : Prop := 0 < s.inFlight.count ∨ 0 < s.ringing

structure Fits (s : Lobby) (i : Nat) (w : Wait) : Prop where
  due : w.phase.IsOpen → s.now ≤ w.deadline
  lists : w.phase = .lists → i ∉ s.inFlight.waiters.listed
  asks : w.phase = .asks → w.deadline ≤ s.now
  /-- The bell that wakes a sleeping wait is still to come. -/
  busy : w.phase = .sleeps → i ∈ s.inFlight.waiters.listed → s.IsBusy
  ended : ∀ a, w.phase = .ended a → a.IsRight w.deadline

structure Inv (s : Lobby) : Prop where
  count : s.inFlight.count = s.inside
  listed : ∀ i ∈ s.inFlight.waiters.listed, i < s.waits.length
  fits : ∀ i w, s.waits[i]? = some w → s.Fits i w

/-- A move of somebody else does not disturb a wait, if the wait stays listed only while the bell is
to come. -/
theorem Fits.keep (H : s.Fits i w) (hnow : t.now = s.now)
    (hbusy : i ∈ t.inFlight.waiters.listed →
      i ∈ s.inFlight.waiters.listed ∧ (s.IsBusy → t.IsBusy)) : t.Fits i w where
  due hopen := hnow ▸ H.due hopen
  lists hphase hlisted := H.lists hphase (hbusy hlisted).1
  asks hphase := hnow ▸ H.asks hphase
  busy hphase hlisted := (hbusy hlisted).2 (H.busy hphase (hbusy hlisted).1)
  ended := H.ended

theorem Inv.move (H : s.Inv) (hw : s.waits[i]? = some w) (h : Move s i w p waiters) :
    (s.place i { w with phase := p } waiters).Fits i { w with phase := p } := by
  have fits := H.fits i w hw
  have due : s.now ≤ w.deadline := fits.due h.isOpen
  cases h with
  | lists => exact ⟨fun _ => due, nofun, nofun, nofun, nofun⟩
  | wakes _ hlisted => exact ⟨fun _ => due, fun _ => hlisted, nofun, nofun, nofun⟩
  | busy _ hcount => exact ⟨fun _ => due, nofun, nofun, fun _ _ => .inl hcount, nofun⟩
  | due _ _ hdue => exact ⟨fun _ => due, nofun, fun _ => hdue, nofun, nofun⟩
  | idle _ hcount =>
    refine ⟨fun hopen => absurd rfl (hopen _), nofun, nofun, nofun, fun a ha => ?_⟩
    cases ha
    exact ⟨⟨fun _ => H.count.symm.trans hcount, fun _ => rfl⟩, due, nofun⟩
  | asks hphase =>
    refine ⟨fun hopen => absurd rfl (hopen _), nofun, nofun, nofun, fun a ha => ?_⟩
    cases ha
    exact ⟨by rw [decide_eq_true_eq, H.count], due, fun _ => Nat.le_antisymm due (fits.asks hphase)⟩

theorem Still.fits (hs : s.Still) (hw : s.waits[i]? = some w) (H : s.Fits i w) :
    ({ s with now := s.now + 1 } : Lobby).Fits i w where
  due hopen := by
    rcases Wait.move_or_sleeps hopen s i with ⟨p, waiters, h⟩ | ⟨-, -, hlt⟩
    · exact absurd h (hs.waits i w hw p waiters)
    · exact hlt
  lists := H.lists
  asks hphase := absurd (.asks hphase) (hs.waits i w hw _ _)
  busy := H.busy
  ended := H.ended

theorem inv_empty : empty.Inv where
  count := rfl
  listed := nofun
  fits _ _ hw := nomatch hw

theorem Inv.step {e : Event} (H : s.Inv) (h : Step s e t) : t.Inv := by
  cases h with
  | enters =>
    refine ⟨congrArg (· + 1) H.count, H.listed, fun i w hw => ?_⟩
    exact (H.fits i w hw).keep rfl fun hi => ⟨hi, fun _ => .inl (Nat.succ_pos _)⟩
  | leaves h =>
    refine ⟨congrArg (· - 1) H.count, H.listed, fun i w hw => ?_⟩
    refine (H.fits i w hw).keep rfl fun hi => ⟨hi, fun _ => ?_⟩
    have hcount := H.count
    by_cases hone : s.inFlight.count = 1
    · exact .inr (by simp [leave, hone])
    · exact .inl (show 0 < s.inFlight.count - 1 by omega)
  | rings h =>
    exact ⟨H.count, nofun, fun i w hw => (H.fits i w hw).keep rfl fun hi => nomatch hi⟩
  | calls budget =>
    refine ⟨H.count, fun i hi => ?_, fun i w hw => ?_⟩
    · exact Nat.lt_of_lt_of_le (H.listed i hi) (by simp [call])
    · rcases waits_call hw with hw | ⟨rfl, rfl⟩
      · exact (H.fits i w hw).keep rfl fun hi => ⟨hi, id⟩
      · refine ⟨fun _ => Nat.le_add_right .., fun _ hi => ?_, nofun, nofun, nofun⟩
        exact Nat.lt_irrefl _ (H.listed _ hi)
  | @moves i w p waiters hw h =>
    refine ⟨H.count, fun j hj => ?_, fun j v hv => ?_⟩
    · exact Nat.lt_of_lt_of_eq (h.listed_lt hw H.listed j hj) List.length_set.symm
    · by_cases hne : i = j
      · subst hne
        cases (waits_place_self hw _ _).symm.trans hv
        exact H.move hw h
      · rw [waits_place_of_ne hne] at hv
        exact (H.fits j v hv).keep rfl fun hj => ⟨(h.mem_listed_of_ne (Ne.symm hne)).mp hj, id⟩
  | passes h => exact ⟨H.count, H.listed, fun i w hw => h.fits hw (H.fits i w hw)⟩

theorem Reachable.inv (h : Reachable s) : s.Inv := by
  obtain ⟨events, H⟩ := h
  induction H with
  | refl => exact inv_empty
  | step _ h ih => exact ih.step h

/-! ## Undisturbed -/

/-- The wait moves, and nobody else does. -/
def Alone (i : Nat) (s t : Lobby) : Prop := ∃ n, Run s (.replicate n (.moves i)) t

theorem alone_refl (i : Nat) (s : Lobby) : Alone i s s := ⟨0, .refl⟩

theorem Alone.step {u : Lobby} (H : Alone i s t) (h : Step t (.moves i) u) : Alone i s u := by
  obtain ⟨n, H⟩ := H
  exact ⟨n + 1, List.replicate_succ' ▸ H.step h⟩

@[simp]
theorem place_place (w w' : Wait) (waiters waiters' : Waiters Nat) (s : Lobby) :
    (s.place i w waiters).place i w' waiters' = s.place i w' waiters' := by
  simp [place]

theorem place_self (hw : s.waits[i]? = some w) : s.place i w s.inFlight.waiters = s := by
  obtain ⟨hlt, rfl⟩ := List.getElem?_eq_some_iff.mp hw
  simp [place]

/-- A wait that came to a phase and a list has looked at the requests in flight. -/
structure Looked (s : Lobby) (i : Nat) (w : Wait) (p : Phase) (waiters : Waiters Nat) : Prop where
  look : s.inFlight.look i w.deadline s.now =
    (p.result?, { s.inFlight with waiters := waiters })
  rests : p.IsOpen → p = .sleeps ∧ i ∈ waiters.listed ∧ s.now < w.deadline

/-- The four parts of a look, each only if it is needed. -/
theorem Alone.look (H : Alone i s t) (hw : t.waits[i]? = some w) (hphase : w.phase = .lists)
    (hlisted : i ∉ t.inFlight.waiters.listed) : ∃ p waiters,
      Alone i s (t.place i { w with phase := p } waiters) ∧ t.Looked i w p waiters := by
  let enlisted := t.inFlight.waiters.enlist i
  have mem : i ∈ enlisted.listed := Waiters.mem_enlist.mpr (.inr rfl)
  have strike : enlisted.strike i = t.inFlight.waiters := Waiters.strike_enlist hlisted
  have checks : Alone i s (t.place i ⟨w.deadline, .checks⟩ enlisted) :=
    H.step (.moves hw (.lists hphase))
  have hchecks := waits_place_self hw ⟨w.deadline, .checks⟩ enlisted
  rcases Nat.eq_zero_or_pos t.inFlight.count with hcount | hcount
  · have ended := checks.step (.moves hchecks (.idle rfl hcount))
    rw [place_place] at ended
    refine ⟨_, _, ended, ?_, fun hopen => absurd rfl (hopen _)⟩
    rw [InFlight.look, if_pos (by simp [Waiters.isListed, hlisted, hcount])]
    exact congrArg (fun waiters => (some true, { t.inFlight with waiters := waiters })) strike.symm
  · have sleeps := checks.step (.moves hchecks (.busy rfl hcount))
    have hsleeps := waits_place_self hchecks ⟨w.deadline, .sleeps⟩ enlisted
    have hlook : ¬ ((!t.inFlight.waiters.isListed i && decide (t.inFlight.count = 0)) = true) := by
      simp [Nat.ne_of_gt hcount]
    by_cases hdue : w.deadline ≤ t.now
    · have asks := sleeps.step (.moves hsleeps (.due rfl mem hdue))
      have hasks := waits_place_self hsleeps ⟨w.deadline, .asks⟩ (enlisted.strike i)
      have ended := asks.step (.moves hasks (.asks rfl))
      rw [place_place, place_place, place_place] at ended
      refine ⟨_, _, ended, ?_, fun hopen => absurd rfl (hopen _)⟩
      rw [InFlight.look, if_neg hlook, if_pos hdue, Waiters.strike_of_not_mem hlisted]
      exact congrArg (fun waiters => (some _, { t.inFlight with waiters := waiters })) strike.symm
    · rw [place_place] at sleeps
      refine ⟨_, _, sleeps, ?_, fun _ => ⟨rfl, mem, Nat.not_le.mp hdue⟩⟩
      rw [InFlight.look, if_neg hlook, if_neg hdue]
      rfl

/-- A wait that begins or sleeps, and that nobody disturbs, does what a look does. -/
theorem alone_look (hw : s.waits[i]? = some w)
    (hphase : w.phase = .lists ∧ i ∉ s.inFlight.waiters.listed ∨ w.phase = .sleeps) :
    ∃ p waiters, Alone i s (s.place i { w with phase := p } waiters) ∧ s.Looked i w p waiters := by
  rcases hphase with ⟨hphase, hlisted⟩ | hphase
  · exact (alone_refl i s).look hw hphase hlisted
  by_cases hlisted : i ∈ s.inFlight.waiters.listed
  · have hlook : ¬ ((!s.inFlight.waiters.isListed i && decide (s.inFlight.count = 0)) = true) := by
      simp [Waiters.isListed, hlisted]
    by_cases hdue : w.deadline ≤ s.now
    · have asks := (alone_refl i s).step (.moves hw (.due hphase hlisted hdue))
      have hasks := waits_place_self hw ⟨w.deadline, .asks⟩ (s.inFlight.waiters.strike i)
      have ended := asks.step (.moves hasks (.asks rfl))
      rw [place_place] at ended
      refine ⟨_, _, ended, ?_, fun hopen => absurd rfl (hopen _)⟩
      rw [InFlight.look, if_neg hlook, if_pos hdue]
      rfl
    · refine ⟨.sleeps, s.inFlight.waiters, ?_, ?_, fun _ => ⟨rfl, hlisted, Nat.not_le.mp hdue⟩⟩
      · rw [show ({ w with phase := .sleeps } : Wait) = w from hphase ▸ rfl, place_self hw]
        exact alone_refl i s
      · rw [InFlight.look, if_neg hlook, if_neg hdue, Waiters.enlist_of_mem hlisted]
        rfl
  · have wakes := (alone_refl i s).step (.moves hw (.wakes hphase hlisted))
    have hwakes := waits_place_self hw ⟨w.deadline, .lists⟩ s.inFlight.waiters
    obtain ⟨p, waiters, H, looked⟩ := wakes.look hwakes rfl hlisted
    rw [place_place] at H
    exact ⟨p, waiters, H, ⟨looked.look, looked.rests⟩⟩

/-! ## Without new requests -/

/-- How many moves a wait makes at most until it ends, if no request is in flight. -/
def Phase.rank : Phase → Nat
  | .lists => 2
  | .checks => 1
  | .sleeps => 3
  | .asks => 1
  | .ended _ => 0

/-- While no request is in flight, an open wait can move, or the bell is about to ring. -/
theorem Inv.next (H : s.Inv) (hidle : s.inside = 0) (hw : s.waits[i]? = some w)
    (hopen : w.phase.IsOpen) : (∃ t, Step s (.moves i) t) ∨ ∃ t, Step s .rings t := by
  rcases Wait.move_or_sleeps hopen s i with ⟨p, waiters, h⟩ | ⟨hphase, hlisted, -⟩
  · exact .inl ⟨_, .moves hw h⟩
  · rcases (H.fits i w hw).busy hphase hlisted with hcount | hringing
    · exact absurd hcount (by rw [H.count, hidle]; exact Nat.lt_irrefl 0)
    · exact .inr ⟨_, .rings hringing⟩

theorem Still.busy_of_isOpen (hs : s.Still) (H : s.Inv) (hw : s.waits[i]? = some w)
    (hopen : w.phase.IsOpen) : s.inside ≠ 0 := by
  intro hidle
  rcases H.next hidle hw hopen with ⟨t, h⟩ | ⟨t, h⟩
  · cases h with
    | moves hw h => exact hs.waits _ _ hw _ _ h
  · cases h with
    | rings h => exact absurd hs.ringing (Nat.ne_of_gt h)

/-- Each move of the wait brings it nearer to the answer that no request is in flight. -/
theorem Move.idle_or_rank_lt (h : Move s i w p waiters) (H : s.Inv) (hidle : s.inside = 0) :
    p = .ended ⟨true, s.now, 0⟩ ∨ p.IsOpen ∧ p.rank < w.phase.rank := by
  have hcount : s.inFlight.count = 0 := H.count.trans hidle
  cases h with
  | lists h => exact .inr ⟨nofun, by rw [h]; decide⟩
  | idle => exact .inl (by rw [hidle])
  | busy _ h => exact absurd hcount (Nat.ne_of_gt h)
  | wakes h => exact .inr ⟨nofun, by rw [h]; decide⟩
  | due h => exact .inr ⟨nofun, by rw [h]; decide⟩
  | asks => exact .inl (by rw [hidle, decide_eq_true hcount])

/-- Where a wait stands after a run that began without requests in flight and let none in: it has
ended at once with success, or no time has passed and few moves are left. -/
inductive Settles (s : Lobby) (i : Nat) (w : Wait) (events : List Event) (t : Lobby) : Prop where
  | ended (hw : t.waits[i]? = some { w with phase := .ended ⟨true, s.now, 0⟩ })
  | soon {p : Phase} (hw : t.waits[i]? = some { w with phase := p }) (hopen : p.IsOpen)
      (hnow : t.now = s.now)
      (hrank : events.count .rings + events.count (.moves i) + t.ringing + p.rank ≤
        s.ringing + w.phase.rank)

/-- A step leaves a wait as it is, or is its move. -/
theorem Step.wait {e : Event} (h : Step s e t) (hw : s.waits[i]? = some w) :
    (e ≠ .moves i ∧ t.waits[i]? = some w) ∨ e = .moves i ∧ ∃ p waiters, Move s i w p waiters ∧
      t = s.place i { w with phase := p } waiters := by
  cases h with
  | enters | leaves | rings | passes => exact .inl ⟨nofun, hw⟩
  | calls budget => exact .inl ⟨nofun, waits_call_of_some hw budget⟩
  | @moves j v p waiters hv h =>
    by_cases hne : j = i
    · subst hne
      cases hv.symm.trans hw
      exact .inr ⟨rfl, p, waiters, h, rfl⟩
    · exact .inl ⟨fun heq => hne (Event.moves.inj heq), (waits_place_of_ne hne _ _).trans hw⟩

theorem Step.inside_eq_zero {e : Event} (h : Step s e t) (hidle : s.inside = 0)
    (hne : e ≠ .enters) : t.inside = 0 := by
  cases h with
  | enters => exact absurd rfl hne
  | leaves h => exact absurd hidle (Nat.ne_of_gt h)
  | rings | calls | moves | passes => exact hidle

theorem Settles.step {events : List Event} {e : Event} {u : Lobby} (H : Settles s i w events t)
    (inv : t.Inv) (hidle : t.inside = 0) (h : Step t e u) (hne : e ≠ .enters) :
    Settles s i w (events ++ [e]) u := by
  cases H with
  | ended hw =>
    rcases h.wait hw with ⟨-, hw⟩ | ⟨-, p, waiters, hmove, -⟩
    · exact .ended hw
    · exact absurd rfl (hmove.isOpen _)
  | @soon p hw hopen hnow hrank =>
    have hcount (x : Event) : (events ++ [e]).count x = events.count x + [e].count x :=
      List.count_append
    rcases h.wait hw with ⟨hother, hw'⟩ | ⟨rfl, q, waiters, hmove, rfl⟩
    · have hmoves : [e].count (.moves i) = 0 := by simp [hother]
      cases h with
      | enters => exact absurd rfl hne
      | leaves h => exact absurd hidle (Nat.ne_of_gt h)
      | rings h =>
        have hrings : [Event.rings].count .rings + t.ring.ringing = t.ringing :=
          Nat.add_sub_cancel' h
        refine .soon hw' hopen hnow ?_
        rw [hcount, hcount, hmoves]
        omega
      | calls | moves =>
        refine .soon hw' hopen hnow ?_
        rw [hcount, hcount, hmoves]
        exact hrank
      | passes hstill => exact absurd hidle (hstill.busy_of_isOpen inv hw hopen)
    · rcases hmove.idle_or_rank_lt inv hidle with rfl | ⟨hopen, hlt⟩
      · rw [hnow]
        exact .ended (waits_place_self hw _ _)
      · refine .soon (waits_place_self hw _ _) hopen hnow ?_
        have hmoves : [Event.moves i].count (.moves i) = 1 := List.count_singleton_self
        have hrings : [Event.moves i].count .rings = 0 := rfl
        have hringing (v : Wait) : (t.place i v waiters).ringing = t.ringing := rfl
        have hlt : q.rank < p.rank := hlt
        rw [hcount, hcount, hmoves, hrings, hringing]
        omega

theorem Run.settles {events : List Event} (H : Run s events t) (hs : s.Inv) (hidle : s.inside = 0)
    (hw : s.waits[i]? = some w) (hopen : w.phase.IsOpen) (hclosed : .enters ∉ events) :
    t.Inv ∧ t.inside = 0 ∧ Settles s i w events t := by
  induction H with
  | refl => exact ⟨hs, hidle, .soon hw hopen rfl (by simp)⟩
  | @step events e t u H h ih =>
    simp only [List.mem_append, List.mem_singleton, not_or] at hclosed
    obtain ⟨inv, inside, settles⟩ := ih hclosed.1
    have hne : e ≠ .enters := fun heq => hclosed.2 heq.symm
    exact ⟨inv.step h, h.inside_eq_zero inside hne, settles.step inv inside h hne⟩

/-! ## Honest waits -/

structure Honest (s : Lobby) : Prop where
  counted : s.inFlight.count = s.inside
  /-- A wait ends with success while no request is in flight, and without success while there is one
  and at the deadline; it never ends later. -/
  answered : ∀ (i : Nat) (w : Wait) (a : Answer), s.waits[i]? = some w → w.phase = .ended a →
    a.IsRight w.deadline
  /-- No time passes at the deadline of an open wait. -/
  due : ∀ (i : Nat) (w : Wait), s.waits[i]? = some w → w.phase.IsOpen →
    s.now ≤ w.deadline ∧ (s.now = w.deadline → ∃ t, Step s (.moves i) t)
  /-- When no request is in flight and none enters, an open wait ends at once with success: time
  does not pass before, few moves are left, and one of them can be made. -/
  returns : s.inside = 0 → ∀ (i : Nat) (w : Wait) (events : List Event) (t : Lobby),
    s.waits[i]? = some w → w.phase.IsOpen → Run s events t → .enters ∉ events →
    Settles s i w events t ∧
      ∀ p, t.waits[i]? = some { w with phase := p } → p.IsOpen →
        (∃ u, Step t (.moves i) u) ∨ ∃ u, Step t .rings u
  /-- Undisturbed, a wait does what a look does, -/
  looks : ∀ (i : Nat) (w : Wait), s.waits[i]? = some w → w.phase = .lists ∨ w.phase = .sleeps →
    ∃ p waiters, Alone i s (s.place i { w with phase := p } waiters) ∧ s.Looked i w p waiters
  /-- and a request leaves as a whole. -/
  leaves : 0 < s.inside →
    (if s.inFlight.count = 1 then s.leave.ring else s.leave).inFlight = s.inFlight.leave.2

/-- **Waits for idle tell the truth and miss no moment**, in any order of requests that enter and
leave, of waits that begin, and of all their parts. -/
theorem honest_of_reachable (s : Lobby) (h : Reachable s) : s.Honest := by
  have H := h.inv
  exact {
    counted := H.count
    answered := fun i w a hw hended => (H.fits i w hw).ended a hended
    due := by
      intro i w hw hopen
      refine ⟨(H.fits i w hw).due hopen, fun hdue => ?_⟩
      rcases Wait.move_or_sleeps hopen s i with ⟨p, waiters, h⟩ | ⟨-, -, hlt⟩
      · exact ⟨_, .moves hw h⟩
      · exact absurd hdue (Nat.ne_of_lt hlt)
    returns := by
      intro hidle i w events t hw hopen hrun hclosed
      obtain ⟨inv, inside, settles⟩ := hrun.settles H hidle hw hopen hclosed
      exact ⟨settles, fun p hp hopen => inv.next inside hp hopen⟩
    looks := fun i w hw hphase => alone_look hw (hphase.imp_left fun hphase =>
      ⟨hphase, (H.fits i w hw).lists hphase⟩)
    leaves := by
      intro hinside
      rw [InFlight.leave_eq (H.count ▸ hinside)]
      split <;> rfl }

/-- A request enters between the bell and the look of the wait that it woke, which sleeps again; the
other wait has no time. When the request has left, the first one ends before time passes. -/
theorem honest_newRequest : ∃ s, Reachable s ∧ s.inside = 0 ∧
    s.waits[1]? = some ⟨0, .ended ⟨false, 0, 1⟩⟩ ∧ s.waits[0]? = some ⟨5, .sleeps⟩ ∧
    ∀ events t, Run s events t → .enters ∉ events → 0 < t.now →
      t.waits[0]? = some ⟨5, .ended ⟨true, 0, 0⟩⟩ := by
  have h : Run empty _ _ := .step (.step (.step .refl .enters) (.calls 5)) (.calls 0)
  have h := h.step (@Step.moves _ 0 _ _ _ rfl (.lists rfl))
  have h := h.step (@Step.moves _ 0 _ _ _ rfl (.busy rfl (Nat.succ_pos _)))
  have h := h.step (@Step.moves _ 1 _ _ _ rfl (.lists rfl))
  have h := h.step (@Step.moves _ 1 _ _ _ rfl (.busy rfl (Nat.succ_pos _)))
  have h := h.step (@Step.moves _ 1 _ _ _ rfl (.due rfl (.tail _ (.head _)) (Nat.le_refl _)))
  have h := h.step (@Step.moves _ 1 _ _ _ rfl (.asks rfl))
  have h := (h.step (.leaves (Nat.succ_pos _))).step .enters
  have h := h.step (.rings (Nat.succ_pos _))
  have h := h.step (@Step.moves _ 0 _ _ _ rfl (.wakes rfl List.not_mem_nil))
  have h := h.step (@Step.moves _ 0 _ _ _ rfl (.lists rfl))
  have h := h.step (@Step.moves _ 0 _ _ _ rfl (.busy rfl (Nat.succ_pos _)))
  have h := h.step (.leaves (Nat.succ_pos _))
  refine ⟨_, ⟨_, h⟩, rfl, rfl, rfl, fun events t hrun hclosed hnow => ?_⟩
  rcases ((honest_of_reachable _ ⟨_, h⟩).returns rfl 0 _ events t rfl nofun hrun hclosed).1 with
    hw | ⟨-, -, hsame, -⟩
  · exact hw
  · exact absurd hsame (Nat.ne_of_gt hnow)

end Lobby

end Http

end Logbook
