import Mathlib.Data.List.Flatten
import Mathlib.Data.List.Nodup
import Logbook.Proofs.Startup.Calls

/-! The entries of a startup over its whole history. Entries are registered at any time, also by
entries that run, and the phases are run by calls, one call after the other. Each entry waits in the
list of its phase or is in one batch, and it runs at most once. -/

namespace Logbook.Startup

structure History where
  sequencer : Sequencer Entry
  /-- All entries that were ever registered, in this order. -/
  registered : List Entry
  /-- All calls; the last one may be under way. -/
  calls : List Call

namespace History

def start : History := ⟨.empty, [], []⟩

/-- Registers an entry; its number is the number of entries before it. -/
def add (phase : Phase) (s : History) : History :=
  let e : Entry := ⟨s.registered.length, phase⟩
  { s with sequencer := s.sequencer.add phase e, registered := s.registered ++ [e] }

inductive Step (s : History) : History → Prop where
  | add (phase : Phase) : Step s (s.add phase)
  | begins {phases : List Phase} {r : Run Entry} {q : Sequencer Entry}
      (hphases : phases = initializing ∨ phases = starting) (hover : ∀ c ∈ s.calls, c.IsOver)
      (h : begin? phases s.sequencer = (some r, q)) :
      Step s { s with
        sequencer := q
        calls := s.calls ++
          [⟨phases, [⟨⟨r.phase, s.registered.length, r.batch⟩, []⟩], .moving r⟩] }
  | advance {calls : List Call} {c c' : Call} {q : Sequencer Entry}
      (hcalls : s.calls = calls ++ [c]) (h : c.Advance s.registered.length s.sequencer q c') :
      Step s { s with sequencer := q, calls := calls ++ [c'] }

inductive Reachable : History → Prop where
  | start : Reachable start
  | step {s t : History} (H : Reachable s) (h : Step s t) : Reachable t

def batches (s : History) : List Batch := s.calls.flatMap Call.batches

def openings (s : History) : List Opening := s.batches.map Batch.toOpening

/-- All entries that were called, in this order. -/
def attempts (s : History) : List Attempt := s.batches.flatMap Batch.ran

def waiting (s : History) : List Entry := s.batches.flatMap Batch.waiting

def discarded (s : History) : List Entry := s.batches.flatMap Batch.discarded

end History

/-! ## Batches that are taken -/

/-- Whether an entry waits in the list of a phase: it was registered after each opening of it. -/
def Entry.IsPending (openings : List Opening) (phase : Phase) (e : Entry) : Prop :=
  e.phase = phase ∧ ∀ o ∈ openings, o.phase = phase → o.before ≤ e.number

instance (openings : List Opening) (phase : Phase) (e : Entry) :
    Decidable (e.IsPending openings phase) :=
  inferInstanceAs (Decidable (_ ∧ _))

/-- Where the registered entries are. -/
structure Tallied (registered : List Entry) (q : Sequencer Entry) (openings : List Opening) :
    Prop where
  numbers : registered.map Entry.number = List.range registered.length
  pending (phase : Phase) : q.pending phase = registered.filter (Entry.IsPending openings phase)
  before_le : ∀ o ∈ openings, o.before ≤ registered.length
  taken (earlier : List Opening) (o : Opening) (later : List Opening)
    (h : openings = earlier ++ o :: later) :
    o.taken = registered.filter fun e => e.IsPending earlier o.phase ∧ e.number < o.before
  count (e : Entry) : (q.pending e.phase).count e + (openings.flatMap Opening.taken).count e =
    registered.count e

theorem tallied_empty : Tallied [] .empty [] where
  numbers := rfl
  pending _ := rfl
  before_le := nofun
  taken _ _ _ h := absurd h.symm (List.append_ne_nil_of_right_ne_nil _ (List.cons_ne_nil _ _))
  count _ := rfl

namespace Tallied

variable {registered : List Entry} {q : Sequencer Entry} {openings : List Opening}

theorem number_lt (H : Tallied registered q openings) {e : Entry} (he : e ∈ registered) :
    e.number < registered.length :=
  lt_of_numbered H.numbers he

theorem add (H : Tallied registered q openings) (phase : Phase) :
    Tallied (registered ++ [⟨registered.length, phase⟩]) (q.add phase ⟨registered.length, phase⟩)
      openings where
  numbers := numbered_concat H.numbers rfl
  pending p := by
    rw [List.filter_append, ← H.pending p, Sequencer.pending_add]
    by_cases hp : p = phase
    · have hnew : Entry.IsPending openings p ⟨registered.length, phase⟩ :=
        ⟨hp.symm, fun o ho _ => H.before_le o ho⟩
      rw [if_pos hp, List.filter_cons_of_pos (by simpa using hnew), List.filter_nil]
    · have hnew : ¬ Entry.IsPending openings p ⟨registered.length, phase⟩ :=
        fun hnew => hp hnew.1.symm
      rw [if_neg hp, List.filter_cons_of_neg (by simpa using hnew), List.filter_nil,
        List.append_nil]
  before_le o ho := by
    rw [List.length_append]
    exact Nat.le_add_right_of_le (H.before_le o ho)
  taken earlier o later h := by
    have hle : o.before ≤ registered.length :=
      H.before_le o (h ▸ List.mem_append_right _ (.head _))
    have hnew : ¬ (Entry.IsPending earlier o.phase ⟨registered.length, phase⟩ ∧
        registered.length < o.before) := fun hnew => Nat.not_lt.mpr hle hnew.2
    rw [List.filter_append, ← H.taken earlier o later h,
      List.filter_cons_of_neg (by simpa using hnew), List.filter_nil, List.append_nil]
  count e := by
    rw [List.count_append, ← H.count e, Sequencer.pending_add]
    by_cases hphase : e.phase = phase
    · rw [if_pos hphase, List.count_append, Nat.add_right_comm]
    · have hne : (⟨registered.length, phase⟩ : Entry) ≠ e := fun heq => hphase (heq ▸ rfl)
      rw [if_neg hphase, List.count_singleton, if_neg (by simpa using hne), Nat.add_zero]

theorem opens (H : Tallied registered q openings) (phase : Phase) :
    Tallied registered (q.take phase).2
      (openings ++ [⟨phase, registered.length, q.pending phase⟩]) where
  numbers := H.numbers
  pending p := by
    rw [Sequencer.pending_take]
    by_cases hp : p = phase
    · -- every number is below the count that the new opening keeps
      rw [if_pos hp]
      refine (List.filter_eq_nil_iff.mpr fun e he hpending => ?_).symm
      have hle := (of_decide_eq_true hpending).2 _ List.mem_concat_self hp.symm
      exact absurd (H.number_lt he) (Nat.not_lt.mpr hle)
    · rw [if_neg hp, H.pending p]
      refine List.filter_congr fun e _ => decide_eq_decide.mpr (and_congr_right fun _ => ?_)
      rw [List.forall_mem_append, List.forall_mem_singleton]
      exact (and_iff_left fun hphase => absurd hphase.symm hp).symm
  before_le := by
    rw [List.forall_mem_append, List.forall_mem_singleton]
    exact ⟨H.before_le, Nat.le_refl _⟩
  taken earlier o later h := by
    rcases append_cons_eq_concat h.symm with ⟨rfl, rfl, rfl⟩ | ⟨later', rfl⟩
    · refine (H.pending phase).trans (List.filter_congr fun e he => decide_eq_decide.mpr ?_)
      exact (and_iff_left (H.number_lt he)).symm
    · exact H.taken earlier o later' rfl
  count e := by
    rw [List.flatMap_append, List.flatMap_singleton, List.count_append, ← H.count e,
      Sequencer.pending_take]
    by_cases hphase : e.phase = phase
    · subst hphase
      rw [if_pos rfl, List.count_nil, Nat.zero_add, Nat.add_comm]
    · have hnot : e ∉ q.pending phase := fun he =>
        hphase (of_decide_eq_true (List.mem_filter.mp (H.pending phase ▸ he)).2).1
      rw [if_neg hphase, List.count_eq_zero_of_not_mem hnot, Nat.add_zero]

theorem mem_pending_or_taken (H : Tallied registered q openings) {e : Entry}
    (he : e ∈ registered) :
    e ∈ q.pending e.phase ∨ ∃ o ∈ openings, o.phase = e.phase ∧ e ∈ o.taken := by
  have hcount := H.count e
  by_cases hpending : e ∈ q.pending e.phase
  · exact .inl hpending
  rw [List.count_eq_zero_of_not_mem hpending, Nat.zero_add] at hcount
  have htaken := List.count_pos_iff.mp (hcount ▸ List.count_pos_iff.mpr he)
  obtain ⟨o, ho, hmem⟩ := List.mem_flatMap.mp htaken
  obtain ⟨earlier, later, hsplit⟩ := List.append_of_mem ho
  have hfilter := H.taken earlier o later hsplit ▸ hmem
  exact .inr ⟨o, ho, (of_decide_eq_true (List.mem_filter.mp hfilter).2).1.1.symm, hmem⟩

theorem nodup (H : Tallied registered q openings) : registered.Nodup :=
  .of_map Entry.number (H.numbers ▸ List.nodup_range)

end Tallied

/-! ## Histories -/

namespace History

variable {s t : History}

theorem openings_of_calls {calls : List Call} {c : Call} (h : s.calls = calls ++ [c]) :
    s.openings = (calls.flatMap Call.batches).map Batch.toOpening ++ c.openings := by
  rw [openings, batches, h, List.flatMap_append, List.flatMap_singleton, List.map_append]
  rfl

theorem attempts_eq (s : History) : s.attempts = s.calls.flatMap Call.attempts :=
  List.flatMap_assoc

structure Inv (s : History) : Prop where
  tallied : Tallied s.registered s.sequencer s.openings
  fits : ∀ c ∈ s.calls, c.Fits
  isOver : ∀ c ∈ s.calls.dropLast, c.IsOver
  phases : ∀ c ∈ s.calls, c.phases = initializing ∨ c.phases = starting

theorem inv_start : start.Inv := ⟨tallied_empty, nofun, nofun, nofun⟩

theorem Inv.step (H : s.Inv) (h : Step s t) : t.Inv := by
  cases h with
  | add phase => exact ⟨H.tallied.add phase, H.fits, H.isOver, H.phases⟩
  | begins hphases hover h =>
    obtain ⟨phase, later, hcons, rfl, rfl⟩ := begin?_eq_some h
    refine ⟨?_, ?_, ?_, ?_⟩
    · rw [openings_of_calls rfl]
      exact H.tallied.opens phase
    · rw [List.forall_mem_append, List.forall_mem_singleton]
      exact ⟨H.fits, Call.fits_begin hcons ..⟩
    · rw [List.dropLast_concat]
      exact hover
    · rw [List.forall_mem_append, List.forall_mem_singleton]
      exact ⟨H.phases, hphases⟩
  | @advance calls c c' q hcalls h =>
    have hfits := H.fits
    have hover := H.isOver
    have hphases := H.phases
    have htallied := H.tallied
    rw [openings_of_calls hcalls] at htallied
    rw [hcalls, List.forall_mem_append, List.forall_mem_singleton] at hfits hphases
    rw [hcalls, List.dropLast_concat] at hover
    refine ⟨?_, ?_, ?_, ?_⟩
    · rw [openings_of_calls rfl]
      rcases h.openings with ⟨rfl, hopenings⟩ | ⟨phase, rfl, hopenings⟩
      · rw [hopenings]
        exact htallied
      · rw [hopenings, ← List.append_assoc]
        exact htallied.opens phase
    · rw [List.forall_mem_append, List.forall_mem_singleton]
      exact ⟨hfits.1, hfits.2.advance h⟩
    · rw [List.dropLast_concat]
      exact hover
    · rw [List.forall_mem_append, List.forall_mem_singleton, h.phases_eq]
      exact hphases

theorem Reachable.inv (h : Reachable s) : s.Inv := by
  induction h with
  | start => exact inv_start
  | step _ h ih => exact ih.step h

namespace Inv

theorem inOrder (H : s.Inv) {b : Batch} (hb : b ∈ s.batches) : b.InOrder := by
  obtain ⟨c, hc, hb⟩ := List.mem_flatMap.mp hb
  exact (H.fits c hc).inOrder.batches b hb

/-- Entries run one at a time, also over all calls. -/
theorem ended (H : s.Inv) : ∀ a ∈ s.attempts.dropLast, a.ending ≠ none := by
  rw [attempts_eq]
  refine forall_mem_dropLast_flatMap (fun c hc => ?_) fun c hc => (H.fits c hc).inOrder.ended
  exact ((H.fits c ((List.dropLast_sublist _).mem hc)).settled (H.isOver c hc)).2

theorem settled (H : s.Inv) (hover : ∀ c ∈ s.calls, c.IsOver) :
    s.waiting = [] ∧ ∀ a ∈ s.attempts, a.ending ≠ none := by
  have hsettled (c : Call) (hc : c ∈ s.calls) := (H.fits c hc).settled (hover c hc)
  rw [waiting, List.flatMap_eq_nil_iff, batches, attempts_eq, List.forall_mem_flatMap,
    List.forall_mem_flatMap]
  exact ⟨fun c hc => (hsettled c hc).1, fun c hc => (hsettled c hc).2⟩

theorem count (H : s.Inv) {e : Entry} (he : e ∈ s.registered) :
    (s.sequencer.pending e.phase).count e + (s.attempts.map Attempt.entry).count e +
      s.waiting.count e + s.discarded.count e = 1 := by
  have htaken := H.tallied.count e
  rw [List.count_eq_one_of_mem H.tallied.nodup he, openings, List.flatMap_map,
    Batch.count_taken (fun b hb => H.inOrder hb)] at htaken
  rw [attempts, waiting, discarded]
  omega

/-- A second phase of a start is run after all entries of the first one have succeeded. -/
theorem secondStart (H : s.Inv) {c : Call} (hc : c ∈ s.calls) {b : Batch} (hb : b ∈ c.batches)
    (hphase : b.phase = .secondStart) : ∃ first, c.batches = [first, b] ∧ first.phase = .start ∧
      first.Succeeded := by
  have hinOrder := (H.fits c hc).inOrder
  obtain ⟨later, hlater⟩ := hinOrder.phases
  have hearlier := hinOrder.earlier
  rcases H.phases c hc with hphases | hphases
  · have hmem : b.phase ∈ initializing := by
      rw [← hphases, ← hlater]
      exact List.mem_append_left _ (List.mem_map_of_mem hb)
    exact absurd (hphase ▸ hmem) (by decide)
  · -- as many batches as phases at most, and the phases in this order
    rw [hphases, starting] at hlater
    generalize c.batches = batches at *
    rcases batches with _ | ⟨first, _ | ⟨second, _ | ⟨third, more⟩⟩⟩
    · cases hb
    · obtain rfl := List.mem_singleton.mp hb
      exact absurd ((List.cons.inj hlater).1.symm.trans hphase) (by decide)
    · obtain ⟨hfirst, -⟩ := List.cons.inj hlater
      rcases List.mem_pair.mp hb with rfl | rfl
      · exact absurd (hfirst.symm.trans hphase) (by decide)
      · exact ⟨first, rfl, hfirst, hearlier first (.head _)⟩
    · exact absurd (congrArg List.length hlater) (by simp)

end Inv

/-- **Entries of a startup.** Calls come one after the other, and each runs the entries of its
phases in order up to the first that fails, whose place and message it returns, or panics, which
leaves it without a result; it comes to its end, and no two entries run at a time. A batch holds the
entries that were registered for the phase before its opening and were not taken by an earlier one;
those behind the last opening are pending. An entry of the second phase stays pending unless a call
takes it whose first phase has succeeded as a whole. Every entry is pending, was called, waits in
the batch under way, or was discarded behind a failure or a panic, and only one of these, once; when
all calls are over, no entry waits and each that was called has ended. -/
theorem entries_in_order (h : Reachable s) :
    (∀ c ∈ s.calls, c.InOrder ∧
      Acc (fun later earlier => ∃ n q q', earlier.Advance n q q' later) c ∧
      (c.IsOver ∨ ∃ q' c', c.Advance s.registered.length s.sequencer q' c')) ∧
    (∀ c ∈ s.calls.dropLast, c.IsOver) ∧ (∀ a ∈ s.attempts.dropLast, a.ending ≠ none) ∧
    (∀ earlier o later, s.openings = earlier ++ o :: later →
      o.taken = s.registered.filter fun e => e.IsPending earlier o.phase ∧ e.number < o.before) ∧
    (∀ phase, s.sequencer.pending phase = s.registered.filter (Entry.IsPending s.openings phase)) ∧
    (∀ e ∈ s.registered, e.phase = .secondStart → e ∈ s.sequencer.pending .secondStart ∨
      ∃ c ∈ s.calls, ∃ first second, c.batches = [first, second] ∧ first.phase = .start ∧
        first.Succeeded ∧ second.phase = .secondStart ∧ e ∈ second.taken) ∧
    (∀ e ∈ s.registered, (s.sequencer.pending e.phase).count e +
      (s.attempts.map Attempt.entry).count e + s.waiting.count e + s.discarded.count e = 1) ∧
    ((∀ c ∈ s.calls, c.IsOver) → s.waiting = [] ∧ ∀ a ∈ s.attempts, a.ending ≠ none) := by
  have H := h.inv
  refine ⟨fun c hc => ⟨(H.fits c hc).inOrder, Call.wellFounded_advance.apply c,
    (H.fits c hc).over_or_advance ..⟩, H.isOver, H.ended, H.tallied.taken, H.tallied.pending, ?_,
    fun e he => H.count he, H.settled⟩
  intro e he hphase
  rcases H.tallied.mem_pending_or_taken he with hpending | ⟨o, ho, hopening, htaken⟩
  · exact .inl (hphase ▸ hpending)
  · obtain ⟨b, hb, rfl⟩ := List.mem_map.mp ho
    obtain ⟨c, hc, hb⟩ := List.mem_flatMap.mp hb
    have hsecond := hopening.trans hphase
    obtain ⟨first, hbatches, hfirst, hsucceeded⟩ := H.secondStart hc hb hsecond
    exact .inr ⟨c, hc, first, b, hbatches, hfirst, hsucceeded, hsecond, htaken⟩

/-- An entry is registered while another one runs, and the one behind that fails; the second phase
is run by the next call. -/
theorem entries_in_order_failedOnce : ∃ s, Reachable s ∧
    s.calls.map Call.course = [.ended (.error ⟨.start, 1, "port in use"⟩), .ended (.ok ())] ∧
    s.attempts.map Attempt.entry = [⟨1, .start⟩, ⟨2, .start⟩, ⟨4, .start⟩, ⟨0, .secondStart⟩] ∧
    s.discarded = [⟨3, .start⟩] ∧
    (∃ c ∈ s.calls, c.FailedWith ⟨.start, 1, "port in use"⟩) ∧ s.waiting = [] ∧
    ∀ e ∈ s.registered, (s.sequencer.pending e.phase).count e +
      (s.attempts.map Attempt.entry).count e + s.waiting.count e + s.discarded.count e = 1 := by
  have h : Reachable start := .start
  have h := (h.step (.add .secondStart)).step (.add .start)
  have h := (h.step (.add .start)).step (.add .start)
  have h := h.step (.begins (.inr rfl) nofun rfl)
  have h := h.step (@Step.advance _ [] _ _ _ rfl
    (@Call.Advance.calls _ _ _ _ _ _ [] _ _ rfl (List.cons_ne_nil _ _) rfl rfl))
  have h := h.step (.add .start)
  have h := h.step (@Step.advance _ [] _ _ _ rfl
    (@Call.Advance.succeeds _ _ _ _ [] _ [] _ rfl rfl rfl))
  have h := h.step (@Step.advance _ [] _ _ _ rfl
    (@Call.Advance.calls _ _ _ _ _ _ [] _ _ rfl (List.cons_ne_nil _ _) rfl rfl))
  have h := h.step (@Step.advance _ [] _ _ _ rfl
    (@Call.Advance.fails _ _ _ _ [] _ [_] _ "port in use" rfl rfl rfl))
  have h := h.step (.begins (.inr rfl) (List.forall_mem_singleton.mpr (.inl ⟨_, rfl⟩)) rfl)
  have h := h.step (@Step.advance _ [_] _ _ _ rfl
    (@Call.Advance.calls _ _ _ _ _ _ [] _ _ rfl (List.cons_ne_nil _ _) rfl rfl))
  have h := h.step (@Step.advance _ [_] _ _ _ rfl
    (@Call.Advance.succeeds _ _ _ _ [] _ [] _ rfl rfl rfl))
  have h := h.step (@Step.advance _ [_] _ _ _ rfl (.opens rfl rfl rfl))
  have h := h.step (@Step.advance _ [_] _ _ _ rfl
    (@Call.Advance.calls _ _ _ _ _ _ [_] _ _ rfl (List.cons_ne_nil _ _) rfl rfl))
  have h := h.step (@Step.advance _ [_] _ _ _ rfl
    (@Call.Advance.succeeds _ _ _ _ [_] _ [] _ rfl rfl rfl))
  have h := h.step (@Step.advance _ [_] _ _ _ rfl (.returns rfl rfl rfl))
  obtain ⟨hcalls, -, -, -, -, -, hcount, hsettled⟩ := entries_in_order h
  refine ⟨_, h, rfl, rfl, rfl, ⟨_, .head _, ((hcalls _ (.head _)).1.error _).mp rfl⟩,
    (hsettled ?_).1, hcount⟩
  exact List.forall_mem_cons.mpr
    ⟨.inl ⟨_, rfl⟩, List.forall_mem_singleton.mpr (.inl ⟨_, rfl⟩)⟩

end History

end Logbook.Startup
