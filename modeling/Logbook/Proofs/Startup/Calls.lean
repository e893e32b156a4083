import Mathlib.Data.Prod.Lex
import Mathlib.Logic.Relation
import Logbook.Proofs.Lists
import Logbook.Startup

/-! The calls that run the phases of a startup, move by move. A call takes a batch when it comes to
a phase, and runs its entries one after the other up to the first that fails or panics; nobody
catches the panic, so that it ends the call as well. What the call has done fits to where it stands,
after each of its moves (`Call.Fits.advance`). -/

namespace Logbook.Startup

/-! ## Lists of phases -/

section Sequencer

variable {α : Type} {phases : List Phase} {q q' : Sequencer α} {r : Run α}

theorem Sequencer.pending_add (phase : Phase) (entry : α) (q : Sequencer α) (p : Phase) :
    (q.add phase entry).pending p = if p = phase then q.pending p ++ [entry] else q.pending p := rfl

theorem Sequencer.pending_take (phase : Phase) (q : Sequencer α) (p : Phase) :
    (q.take phase).2.pending p = if p = phase then [] else q.pending p := rfl

theorem begin?_eq_some (h : begin? phases q = (some r, q')) : ∃ phase later,
    phases = phase :: later ∧ r = ⟨phase, 0, q.pending phase, later⟩ ∧ q' = (q.take phase).2 := by
  cases phases with
  | nil => cases h
  | cons phase later =>
    cases h
    exact ⟨phase, later, rfl, rfl, rfl⟩

theorem begin?_eq_none (h : begin? phases q = (none, q')) : phases = [] ∧ q' = q := by
  cases phases with
  | nil =>
    cases h
    exact ⟨rfl, rfl⟩
  | cons phase later => cases h

theorem Run.next_cons {entry : α} {batch : List α} (h : r.batch = entry :: batch)
    (q : Sequencer α) :
    r.next q = (.call entry { r with index := r.index + 1, batch := batch }, q) := by
  rw [next, h]

/-- A run with nothing left of its batch goes on with the batch of the next phase. -/
theorem Run.next_eq (h : r.batch = []) (q : Sequencer α) :
    r.next q = match begin? r.later q with
      | (none, q) => (.done, q)
      | (some r', q) => r'.next q := by
  obtain ⟨phase, index, batch, later⟩ := r
  obtain rfl : batch = [] := h
  cases later with
  | nil => rfl
  | cons p later =>
    simp only [next, begin?, Run.next.phases]
    split <;> simp_all

end Sequencer

/-! ## Calls and their moves -/

/-- An entry with its phase and its place in the order of all registrations. -/
structure Entry where
  number : Nat
  phase : Phase
  deriving DecidableEq

inductive Ending where
  | succeeded
  | failed (message : String)
  | panicked

/-- An entry that was called; it runs as long as it has no ending. -/
structure Attempt where
  entry : Entry
  ending : Option Ending

def Attempt.succeeded (e : Entry) : Attempt := ⟨e, some .succeeded⟩

/-- A phase that a call has come to: how many entries had been registered until then, for any phase,
and which ones it took. -/
structure Opening where
  phase : Phase
  before : Nat
  taken : List Entry

/-- What a call took, and what it has called of it. -/
structure Batch extends Opening where
  ran : List Attempt

/-- It has ended, and not with success. -/
def Attempt.hasFailed (a : Attempt) : Bool :=
  match a.ending with
  | some (.failed _) | some .panicked => true
  | some .succeeded | none => false

namespace Batch

def hasFailed (b : Batch) : Bool := b.ran.any Attempt.hasFailed

/-- All its entries were called, and each succeeded. -/
def Succeeded (b : Batch) : Prop := b.ran = b.taken.map Attempt.succeeded

/-- Entries behind one that failed or panicked. -/
def discarded (b : Batch) : List Entry := if b.hasFailed then b.taken.drop b.ran.length else []

/-- Entries whose turn has not come. -/
def waiting (b : Batch) : List Entry := if b.hasFailed then [] else b.taken.drop b.ran.length

/-- Its entries are called in their order, each after the one before it succeeded. -/
structure InOrder (b : Batch) : Prop where
  entries : b.ran.map Attempt.entry <+: b.taken
  succeeded : ∀ a ∈ b.ran.dropLast, a.ending = some .succeeded

end Batch

inductive Course where
  /-- It makes its next move at once. -/
  | moving (run : Run Entry)
  /-- The entry that it called last runs. -/
  | calling (run : Run Entry)
  | ended (result : Except StartError Unit)
  /-- The entry that it called last panicked, and it with it. -/
  | panicked

structure Call where
  phases : List Phase
  batches : List Batch
  course : Course

namespace Call

def IsOver (c : Call) : Prop := (∃ result, c.course = .ended result) ∨ c.course = .panicked

def openings (c : Call) : List Opening := c.batches.map Batch.toOpening

def attempts (c : Call) : List Attempt := c.batches.flatMap Batch.ran

/-- The entry that a call has called last failed, in this place with this message. -/
def FailedWith (c : Call) (error : StartError) : Prop :=
  ∃ batches b ran a, c.batches = batches ++ [b] ∧ b.ran = ran ++ [a] ∧
    a.ending = some (.failed error.message) ∧ error.phase = b.phase ∧ error.index = ran.length

/-- The entry that a call has called last panicked. -/
def HasPanicked (c : Call) : Prop :=
  ∃ batches b ran a, c.batches = batches ++ [b] ∧ b.ran = ran ++ [a] ∧ a.ending = some .panicked

/-- Its phases and their entries come in order. It returns an error when an entry fails, with the
phase of that entry, its place in the batch and its message, and only then; it panics with an entry
that panics; else it returns when all have succeeded. -/
structure InOrder (c : Call) : Prop where
  phases : c.batches.map (fun b => b.phase) <+: c.phases
  batches : ∀ b ∈ c.batches, b.InOrder
  earlier : ∀ b ∈ c.batches.dropLast, b.Succeeded
  error (error : StartError) : c.course = .ended (.error error) ↔ c.FailedWith error
  panicked : c.course = .panicked ↔ c.HasPanicked
  ok : c.course = .ended (.ok ()) → c.batches.map (fun b => b.phase) = c.phases ∧
    ∀ b ∈ c.batches, b.Succeeded

/-- The next move of a call or of the entry that it runs; `registered` counts the entries so far. -/
inductive Advance (registered : Nat) (q : Sequencer Entry) (c : Call) :
    Sequencer Entry → Call → Prop where
  | opens {r r' : Run Entry} {q' : Sequencer Entry} (course : c.course = .moving r)
      (hbatch : r.batch = []) (h : begin? r.later q = (some r', q')) :
      Advance registered q c q'
        { c with
          batches := c.batches ++ [⟨⟨r'.phase, registered, r'.batch⟩, []⟩]
          course := .moving r' }
  | calls {r r' : Run Entry} {q' : Sequencer Entry} {batches : List Batch} {b : Batch} {e : Entry}
      (course : c.course = .moving r) (hbatch : r.batch ≠ [])
      (hbatches : c.batches = batches ++ [b]) (h : r.next q = (.call e r', q')) :
      Advance registered q c q'
        { c with
          batches := batches ++ [{ b with ran := b.ran ++ [⟨e, none⟩] }]
          course := .calling r' }
  | succeeds {r : Run Entry} {batches : List Batch} {b : Batch} {ran : List Attempt} {a : Attempt}
      (course : c.course = .calling r) (hbatches : c.batches = batches ++ [b])
      (hran : b.ran = ran ++ [a]) :
      Advance registered q c q
        { c with
          batches := batches ++ [{ b with ran := ran ++ [{ a with ending := some .succeeded }] }]
          course := .moving r }
  | fails {r : Run Entry} {batches : List Batch} {b : Batch} {ran : List Attempt} {a : Attempt}
      (message : String) (course : c.course = .calling r) (hbatches : c.batches = batches ++ [b])
      (hran : b.ran = ran ++ [a]) :
      Advance registered q c q
        { c with
          batches := batches ++
            [{ b with ran := ran ++ [{ a with ending := some (.failed message) }] }]
          course := .ended (.error (r.error message)) }
  | panics {r : Run Entry} {batches : List Batch} {b : Batch} {ran : List Attempt} {a : Attempt}
      (course : c.course = .calling r) (hbatches : c.batches = batches ++ [b])
      (hran : b.ran = ran ++ [a]) :
      Advance registered q c q
        { c with
          batches := batches ++ [{ b with ran := ran ++ [{ a with ending := some .panicked }] }]
          course := .panicked }
  | returns {r : Run Entry} {q' : Sequencer Entry} (course : c.course = .moving r)
      (hbatch : r.batch = []) (h : begin? r.later q = (none, q')) :
      Advance registered q c q' { c with course := .ended (.ok ()) }

end Call

/-! ## What a call has done -/

namespace Call

variable {c c' : Call} {n : Nat} {q q' : Sequencer Entry}

/-- A call has run some batches and has come to an entry of the next one. -/
structure Stands (c : Call) (done : List Batch) (b : Batch) (before rest : List Entry)
    (later : List Phase) : Prop where
  batches : c.batches = done ++ [b]
  done : ∀ d ∈ done, d.Succeeded
  taken : b.taken = before ++ rest
  phases : c.batches.map (fun b => b.phase) ++ later = c.phases

/-- What a call has done, by its course. -/
inductive Fits (c : Call) : Prop where
  | moving {r : Run Entry} {done : List Batch} {b : Batch} {before : List Entry}
      (course : c.course = .moving r) (H : c.Stands done b before r.batch r.later)
      (hran : b.ran = before.map Attempt.succeeded) (hphase : r.phase = b.phase)
      (hindex : r.index = before.length)
  | calling {r : Run Entry} {done : List Batch} {b : Batch} {before : List Entry} {e : Entry}
      (course : c.course = .calling r) (H : c.Stands done b before (e :: r.batch) r.later)
      (hran : b.ran = before.map Attempt.succeeded ++ [⟨e, none⟩]) (hphase : r.phase = b.phase)
      (hindex : r.index = before.length + 1)
  | failed {done : List Batch} {b : Batch} {before rest : List Entry} {later : List Phase}
      {e : Entry} {message : String}
      (course : c.course = .ended (.error ⟨b.phase, before.length, message⟩))
      (H : c.Stands done b before (e :: rest) later)
      (hran : b.ran = before.map Attempt.succeeded ++ [⟨e, some (.failed message)⟩])
  | panicked {done : List Batch} {b : Batch} {before rest : List Entry} {later : List Phase}
      {e : Entry} (course : c.course = .panicked) (H : c.Stands done b before (e :: rest) later)
      (hran : b.ran = before.map Attempt.succeeded ++ [⟨e, some .panicked⟩])
  | returned (course : c.course = .ended (.ok ())) (hbatches : ∀ b ∈ c.batches, b.Succeeded)
      (hphases : c.batches.map (fun b => b.phase) = c.phases)

namespace Stands

variable {done : List Batch} {b : Batch} {before rest : List Entry} {later : List Phase}

/-- The last batch is run further. -/
theorem runs (H : c.Stands done b before rest later) {before' rest' : List Entry}
    (hsplit : before' ++ rest' = before ++ rest) (ran : List Attempt) (course : Course) :
    Stands { c with batches := done ++ [{ b with ran := ran }], course := course } done
      { b with ran := ran } before' rest' later where
  batches := rfl
  done := H.done
  taken := H.taken.trans hsplit.symm
  phases := by
    rw [← H.phases, H.batches, List.map_append, List.map_append]
    rfl

/-- A batch without a rest is one of those that succeeded. -/
theorem all (H : c.Stands done b before [] later) (hran : b.ran = before.map Attempt.succeeded) :
    ∀ d ∈ c.batches, d.Succeeded := by
  rw [H.batches, List.forall_mem_append, List.forall_mem_singleton, Batch.Succeeded, H.taken,
    List.append_nil]
  exact ⟨H.done, hran⟩

end Stands

theorem Fits.of_moving {r : Run Entry} (H : c.Fits) (course : c.course = .moving r) :
    ∃ done b before, c.Stands done b before r.batch r.later ∧
      b.ran = before.map Attempt.succeeded ∧ r.phase = b.phase ∧ r.index = before.length := by
  cases H with
  | moving course' H hran hphase hindex =>
    cases course.symm.trans course'
    exact ⟨_, _, _, H, hran, hphase, hindex⟩
  | calling course' | failed course' | panicked course' | returned course' =>
    cases course.symm.trans course'

theorem Fits.of_calling {r : Run Entry} (H : c.Fits) (course : c.course = .calling r) :
    ∃ done b before e, c.Stands done b before (e :: r.batch) r.later ∧
      b.ran = before.map Attempt.succeeded ++ [⟨e, none⟩] ∧ r.phase = b.phase ∧
      r.index = before.length + 1 := by
  cases H with
  | calling course' H hran hphase hindex =>
    cases course.symm.trans course'
    exact ⟨_, _, _, _, H, hran, hphase, hindex⟩
  | moving course' | failed course' | panicked course' | returned course' =>
    cases course.symm.trans course'

theorem fits_begin {phases later : List Phase} {phase : Phase} (h : phases = phase :: later)
    (before : Nat) (taken : List Entry) :
    Fits ⟨phases, [⟨⟨phase, before, taken⟩, []⟩], .moving ⟨phase, 0, taken, later⟩⟩ :=
  @Fits.moving _ _ [] _ [] rfl ⟨rfl, nofun, rfl, h.symm⟩ rfl rfl rfl

theorem Fits.advance (H : c.Fits) (h : c.Advance n q q' c') : c'.Fits := by
  cases h with
  | opens course hbatch h =>
    obtain ⟨done, b, before, hstands, hran, -, -⟩ := H.of_moving course
    obtain ⟨phase, later, hlater, rfl, -⟩ := begin?_eq_some h
    -- the batch before is used up, so it is one more that succeeded
    rw [hbatch, hlater] at hstands
    refine @Fits.moving _ _ c.batches _ [] rfl ⟨rfl, hstands.all hran, rfl, ?_⟩ rfl rfl rfl
    rw [← hstands.phases, List.map_append, List.append_assoc]
    rfl
  | calls course hbatch hbatches h =>
    obtain ⟨done, b, before, hstands, hran, hphase, hindex⟩ := H.of_moving course
    obtain ⟨rfl, rfl⟩ := List.append_singleton_inj.mp (hstands.batches.symm.trans hbatches)
    obtain ⟨e, batch, hcons⟩ := List.exists_cons_of_ne_nil hbatch
    cases (Run.next_cons hcons q).symm.trans h
    rw [hcons] at hstands
    exact .calling rfl (hstands.runs rfl _ _) (congrArg (· ++ _) hran) hphase
      (congrArg Nat.succ hindex)
  | succeeds course hbatches hran' =>
    obtain ⟨done, b, before, e, hstands, hran, hphase, hindex⟩ := H.of_calling course
    obtain ⟨rfl, rfl⟩ := List.append_singleton_inj.mp (hstands.batches.symm.trans hbatches)
    obtain ⟨rfl, rfl⟩ := List.append_singleton_inj.mp (hran.symm.trans hran')
    refine @Fits.moving _ _ done _ (before ++ [e]) rfl (hstands.runs ?_ _ _) ?_ hphase ?_
    · exact List.append_assoc ..
    · rw [List.map_append]
      rfl
    · rw [hindex, List.length_append, List.length_singleton]
  | fails message course hbatches hran' =>
    obtain ⟨done, b, before, e, hstands, hran, hphase, hindex⟩ := H.of_calling course
    obtain ⟨rfl, rfl⟩ := List.append_singleton_inj.mp (hstands.batches.symm.trans hbatches)
    obtain ⟨rfl, rfl⟩ := List.append_singleton_inj.mp (hran.symm.trans hran')
    refine .failed ?_ (hstands.runs rfl _ _) rfl
    simp only [Run.error, hphase, hindex, Nat.add_sub_cancel]
  | panics course hbatches hran' =>
    obtain ⟨done, b, before, e, hstands, hran, -, -⟩ := H.of_calling course
    obtain ⟨rfl, rfl⟩ := List.append_singleton_inj.mp (hstands.batches.symm.trans hbatches)
    obtain ⟨rfl, rfl⟩ := List.append_singleton_inj.mp (hran.symm.trans hran')
    exact .panicked rfl (hstands.runs rfl _ _) rfl
  | returns course hbatch h =>
    obtain ⟨done, b, before, hstands, hran, -, -⟩ := H.of_moving course
    obtain ⟨hlater, -⟩ := begin?_eq_none h
    rw [hbatch, hlater] at hstands
    exact .returned rfl (hstands.all hran) ((List.append_nil _).symm.trans hstands.phases)

/-- The openings of a call change with the lists of the phases. -/
theorem Advance.openings (h : c.Advance n q q' c') :
    q' = q ∧ c'.openings = c.openings ∨ ∃ phase, q' = (q.take phase).2 ∧
      c'.openings = c.openings ++ [⟨phase, n, q.pending phase⟩] := by
  cases h with
  | opens course hbatch h =>
    obtain ⟨phase, later, -, rfl, rfl⟩ := begin?_eq_some h
    exact .inr ⟨phase, rfl, List.map_append⟩
  | calls course hbatch hbatches h =>
    obtain ⟨e, batch, hcons⟩ := List.exists_cons_of_ne_nil hbatch
    cases (Run.next_cons hcons q).symm.trans h
    refine .inl ⟨rfl, ?_⟩
    rw [Call.openings, Call.openings, hbatches, List.map_append, List.map_append]
    rfl
  | succeeds course hbatches | fails message course hbatches | panics course hbatches =>
    refine .inl ⟨rfl, ?_⟩
    rw [Call.openings, Call.openings, hbatches, List.map_append, List.map_append]
    rfl
  | returns course hbatch h => exact .inl ⟨(begin?_eq_none h).2, rfl⟩

theorem Advance.phases_eq (h : c.Advance n q q' c') : c'.phases = c.phases := by
  cases h <;> rfl

end Call

/-! ## Calls keep to the order -/

theorem Attempt.ending_of_mem {entries : List Entry} {a : Attempt}
    (h : a ∈ entries.map Attempt.succeeded) : a.ending = some .succeeded := by
  obtain ⟨e, -, rfl⟩ := List.mem_map.mp h
  rfl

theorem Attempt.succeeded_of_mem {entries : List Entry} {a : Attempt} {ending : Ending}
    (h : a ∈ entries.map Attempt.succeeded) (hending : a.ending = some ending) :
    ending = .succeeded :=
  Option.some.inj (hending.symm.trans (ending_of_mem h))

theorem Attempt.map_entry_succeeded (entries : List Entry) :
    (entries.map Attempt.succeeded).map Attempt.entry = entries := by
  rw [List.map_map]
  exact List.map_id entries

namespace Batch

variable {b : Batch} {before rest : List Entry}

theorem inOrder_of_ran (htaken : b.taken = before ++ rest)
    (hran : b.ran = before.map Attempt.succeeded) : b.InOrder where
  entries := by
    rw [hran, htaken, Attempt.map_entry_succeeded]
    exact List.prefix_append ..
  succeeded a ha := Attempt.ending_of_mem (hran ▸ (List.dropLast_sublist _).mem ha)

theorem inOrder_of_ran_concat {e : Entry} {ending : Option Ending}
    (htaken : b.taken = before ++ e :: rest)
    (hran : b.ran = before.map Attempt.succeeded ++ [⟨e, ending⟩]) : b.InOrder where
  entries := by
    rw [hran, htaken, List.map_append, Attempt.map_entry_succeeded]
    exact (List.prefix_append_right_inj before).mpr ⟨rest, rfl⟩
  succeeded a ha := by
    rw [hran, List.dropLast_concat] at ha
    exact Attempt.ending_of_mem ha

theorem Succeeded.inOrder (h : b.Succeeded) : b.InOrder :=
  inOrder_of_ran (List.append_nil _).symm h

theorem Succeeded.waiting (h : b.Succeeded) : b.waiting = [] := by
  rw [Batch.waiting, h, List.length_map, List.drop_length, ite_self]

theorem Succeeded.ended (h : b.Succeeded) : ∀ a ∈ b.ran, a.ending ≠ none :=
  fun _ ha => Attempt.ending_of_mem (h ▸ ha) ▸ nofun

theorem InOrder.split (h : b.InOrder) :
    b.ran.map Attempt.entry ++ (b.waiting ++ b.discarded) = b.taken := by
  have happend := List.prefix_iff_eq_append.mp h.entries
  rw [List.length_map] at happend
  rw [waiting, discarded]
  split
  · exact happend
  · rw [List.append_nil]
    exact happend

/-- Each entry of some batches was called, waits for its turn, or was discarded. -/
theorem count_taken {batches : List Batch} (h : ∀ b ∈ batches, b.InOrder) (e : Entry) :
    (batches.flatMap fun b => b.taken).count e =
      ((batches.flatMap Batch.ran).map Attempt.entry).count e + (batches.flatMap waiting).count e +
        (batches.flatMap discarded).count e := by
  induction batches with
  | nil => rfl
  | cons b batches ih =>
    obtain ⟨hb, h⟩ := List.forall_mem_cons.mp h
    simp only [List.flatMap_cons, List.map_append, List.count_append, ih h, ← hb.split]
    omega

end Batch

namespace Call

variable {c c' : Call} {n : Nat} {q q' : Sequencer Entry}

namespace Stands

variable {done : List Batch} {b : Batch} {before rest : List Entry} {later : List Phase}

/-- The attempt that was made last is the last one of the last batch. -/
theorem exists_last_iff (H : c.Stands done b before rest later)
    (P : Batch → List Attempt → Attempt → Prop) :
    (∃ batches b ran a, c.batches = batches ++ [b] ∧ b.ran = ran ++ [a] ∧ P b ran a) ↔
      ∃ ran a, b.ran = ran ++ [a] ∧ P b ran a := by
  constructor
  · rintro ⟨batches, b', ran, a, hbatches, h⟩
    obtain ⟨rfl, rfl⟩ := List.append_singleton_inj.mp (H.batches.symm.trans hbatches)
    exact ⟨ran, a, h⟩
  · rintro ⟨ran, a, h⟩
    exact ⟨done, b, ran, a, H.batches, h⟩

theorem failedWith_iff (H : c.Stands done b before rest later) (error : StartError) :
    c.FailedWith error ↔ ∃ ran a, b.ran = ran ++ [a] ∧ a.ending = some (.failed error.message) ∧
      error.phase = b.phase ∧ error.index = ran.length :=
  H.exists_last_iff fun b ran a =>
    a.ending = some (.failed error.message) ∧ error.phase = b.phase ∧ error.index = ran.length

theorem hasPanicked_iff (H : c.Stands done b before rest later) :
    c.HasPanicked ↔ ∃ ran a, b.ran = ran ++ [a] ∧ a.ending = some .panicked :=
  H.exists_last_iff fun _ _ a => a.ending = some .panicked

/-- As long as all entries that have ended succeeded, a call neither fails nor panics. -/
theorem not_broken (H : c.Stands done b before rest later)
    (hran : ∀ a ∈ b.ran, ∀ ending, a.ending = some ending → ending = .succeeded) :
    (∀ error, ¬c.FailedWith error) ∧ ¬c.HasPanicked := by
  refine ⟨fun error => ?_, ?_⟩
  · rw [H.failedWith_iff]
    rintro ⟨ran, a, hlast, hfailed, -⟩
    cases hran a (hlast ▸ List.mem_concat_self) _ hfailed
  · rw [H.hasPanicked_iff]
    rintro ⟨ran, a, hlast, hpanicked⟩
    cases hran a (hlast ▸ List.mem_concat_self) _ hpanicked

theorem inOrder (H : c.Stands done b before rest later) (hb : b.InOrder)
    (herror : ∀ error, c.course = .ended (.error error) ↔ c.FailedWith error)
    (hpanic : c.course = .panicked ↔ c.HasPanicked) (hok : c.course ≠ .ended (.ok ())) :
    c.InOrder where
  phases := ⟨later, H.phases⟩
  batches := by
    rw [H.batches, List.forall_mem_append, List.forall_mem_singleton]
    exact ⟨fun d hd => (H.done d hd).inOrder, hb⟩
  earlier := by
    rw [H.batches, List.dropLast_concat]
    exact H.done
  error := herror
  panicked := hpanic
  ok h := absurd h hok

end Stands

theorem Fits.inOrder (H : c.Fits) : c.InOrder := by
  cases H with
  | moving course H hran =>
    obtain ⟨hfailed, hpanicked⟩ := H.not_broken fun a ha _ =>
      Attempt.succeeded_of_mem (hran ▸ ha)
    refine H.inOrder (Batch.inOrder_of_ran H.taken hran) (fun error => ?_) ?_ (course ▸ nofun)
    · exact iff_of_false (course ▸ nofun) (hfailed error)
    · exact iff_of_false (course ▸ nofun) hpanicked
  | calling course H hran =>
    obtain ⟨hfailed, hpanicked⟩ := H.not_broken fun a ha ending hending => by
      rcases List.mem_append.mp (hran ▸ ha) with ha | ha
      · exact Attempt.succeeded_of_mem ha hending
      · cases List.mem_singleton.mp ha
        cases hending
    refine H.inOrder (Batch.inOrder_of_ran_concat H.taken hran) (fun error => ?_) ?_
      (course ▸ nofun)
    · exact iff_of_false (course ▸ nofun) (hfailed error)
    · exact iff_of_false (course ▸ nofun) hpanicked
  | failed course H hran =>
    refine H.inOrder (Batch.inOrder_of_ran_concat H.taken hran) (fun error => ?_) ?_
      (course ▸ nofun)
    · rw [H.failedWith_iff, course]
      constructor
      · intro h
        cases h
        exact ⟨_, _, hran, rfl, rfl, (List.length_map _).symm⟩
      · rintro ⟨ran, a, hlast, hfailed, hphase, hindex⟩
        obtain ⟨rfl, rfl⟩ := List.append_singleton_inj.mp (hran.symm.trans hlast)
        obtain ⟨phase, index, message⟩ := error
        cases hfailed
        rw [List.length_map] at hindex
        cases hphase
        cases hindex
        rfl
    · rw [H.hasPanicked_iff, course]
      refine ⟨nofun, ?_⟩
      rintro ⟨ran, a, hlast, hpanicked⟩
      obtain ⟨-, rfl⟩ := List.append_singleton_inj.mp (hran.symm.trans hlast)
      cases hpanicked
  | panicked course H hran =>
    refine H.inOrder (Batch.inOrder_of_ran_concat H.taken hran) (fun error => ?_) ?_
      (course ▸ nofun)
    · rw [H.failedWith_iff, course]
      refine ⟨nofun, ?_⟩
      rintro ⟨ran, a, hlast, hfailed, -⟩
      obtain ⟨-, rfl⟩ := List.append_singleton_inj.mp (hran.symm.trans hlast)
      cases hfailed
    · exact iff_of_true course (H.hasPanicked_iff.mpr ⟨_, _, hran, rfl⟩)
  | returned course hbatches hphases =>
    have hsucceeded {batches : List Batch} {b : Batch} {ran : List Attempt} {a : Attempt}
        {ending : Ending} (hsplit : c.batches = batches ++ [b]) (hlast : b.ran = ran ++ [a]) :
        a.ending = some ending → ending = .succeeded :=
      Attempt.succeeded_of_mem
        ((hbatches b (hsplit ▸ List.mem_concat_self)).symm.trans hlast ▸ List.mem_concat_self)
    refine ⟨⟨[], (List.append_nil _).trans hphases⟩, fun b hb => (hbatches b hb).inOrder,
      fun b hb => hbatches b ((List.dropLast_sublist _).mem hb), fun error => ?_, ?_,
      fun _ => ⟨hphases, hbatches⟩⟩
    · refine iff_of_false (course ▸ nofun) ?_
      rintro ⟨batches, b, ran, a, hsplit, hlast, hfailed, -⟩
      cases hsucceeded hsplit hlast hfailed
    · refine iff_of_false (course ▸ nofun) ?_
      rintro ⟨batches, b, ran, a, hsplit, hlast, hpanicked⟩
      cases hsucceeded hsplit hlast hpanicked

/-- Once a call is over, none of its entries runs or waits. -/
theorem Fits.settled (H : c.Fits) (hover : c.IsOver) :
    (∀ b ∈ c.batches, b.waiting = []) ∧ ∀ a ∈ c.attempts, a.ending ≠ none := by
  -- behind an entry that has ended otherwise than with success nothing of its batch waits
  have hbroken {done : List Batch} {b : Batch} {before rest : List Entry} {later : List Phase}
      {e : Entry} {ending : Ending} (H : c.Stands done b before rest later)
      (hran : b.ran = before.map Attempt.succeeded ++ [⟨e, some ending⟩])
      (hending : Attempt.hasFailed ⟨e, some ending⟩ = true) :
      (∀ b ∈ c.batches, b.waiting = []) ∧ ∀ a ∈ c.attempts, a.ending ≠ none := by
    have hfailed : b.hasFailed = true := by
      rw [Batch.hasFailed, hran, List.any_append, Bool.or_eq_true]
      exact .inr ((List.any_cons ..).trans (by rw [hending]; rfl))
    rw [Call.attempts, List.forall_mem_flatMap, H.batches]
    simp only [List.forall_mem_append, List.forall_mem_singleton, hran]
    exact ⟨⟨fun d hd => (H.done d hd).waiting, if_pos hfailed⟩, fun d hd => (H.done d hd).ended,
      fun a ha => Attempt.ending_of_mem ha ▸ nofun, nofun⟩
  cases H with
  | moving course | calling course =>
    rcases hover with ⟨result, hresult⟩ | hpanicked
    · cases course.symm.trans hresult
    · cases course.symm.trans hpanicked
  | failed course H hran | panicked course H hran => exact hbroken H hran rfl
  | returned course hbatches =>
    exact ⟨fun b hb => (hbatches b hb).waiting,
      List.forall_mem_flatMap.mpr fun b hb => (hbatches b hb).ended⟩

/-- Its entries run one at a time. -/
theorem InOrder.ended (H : c.InOrder) : ∀ a ∈ c.attempts.dropLast, a.ending ≠ none :=
  forall_mem_dropLast_flatMap
    (fun b hb => (H.earlier b hb).ended)
    fun b hb a ha => (H.batches b hb).succeeded a ha ▸ nofun

/-! ### Calls come to their end -/

/-- Falls with each move: the phases to come, and then what is left of the batch. -/
def rank (c : Call) : Nat × Nat :=
  match c.course with
  | .moving r => (r.later.length, 2 * r.batch.length + 1)
  | .calling r => (r.later.length, 2 * r.batch.length + 2)
  | .ended _ | .panicked => (0, 0)

theorem Advance.rank_lt (h : c.Advance n q q' c') : Prod.Lex (· < ·) (· < ·) c'.rank c.rank := by
  rw [Prod.lex_def]
  cases h with
  | opens course hbatch h =>
    obtain ⟨phase, later, hlater, rfl, -⟩ := begin?_eq_some h
    simp [rank, course, hlater]
  | calls course hbatch hbatches h =>
    obtain ⟨e, batch, hcons⟩ := List.exists_cons_of_ne_nil hbatch
    cases (Run.next_cons hcons q).symm.trans h
    have hrest : 2 * batch.length + 2 < 2 * (batch.length + 1) + 1 := by omega
    simpa [rank, course, hcons] using hrest
  | succeeds course => simp [rank, course]
  | fails message course | panics course | returns course =>
    simp only [rank, course]
    omega

theorem wellFounded_advance :
    WellFounded fun later earlier : Call => ∃ n q q', earlier.Advance n q q' later :=
  Subrelation.wf (fun ⟨_, _, _, h⟩ => h.rank_lt)
    (InvImage.wf rank (Prod.lex Nat.lt_wfRel Nat.lt_wfRel).wf)

theorem Fits.over_or_advance (H : c.Fits) (n : Nat) (q : Sequencer Entry) :
    c.IsOver ∨ ∃ q' c', c.Advance n q q' c' := by
  cases H with
  | @moving r done b before course H =>
    refine .inr ?_
    by_cases hbatch : r.batch = []
    · cases hlater : r.later with
      | nil => exact ⟨q, _, .returns course hbatch (congrArg (begin? · q) hlater)⟩
      | cons phase later => exact ⟨_, _, .opens course hbatch (congrArg (begin? · q) hlater)⟩
    · obtain ⟨e, batch, hcons⟩ := List.exists_cons_of_ne_nil hbatch
      exact ⟨q, _, .calls course hbatch H.batches (Run.next_cons hcons q)⟩
  | calling course H hran => exact .inr ⟨q, _, .succeeds course H.batches hran⟩
  | failed course | returned course => exact .inl (.inl ⟨_, course⟩)
  | panicked course => exact .inl (.inr course)

theorem exists_advance_of_cons {r : Run Entry} {e : Entry} {batch : List Entry}
    (course : c.course = .moving r) (hbatches : c.batches ≠ []) (hcons : r.batch = e :: batch)
    (n : Nat) (q : Sequencer Entry) : ∃ c', c.Advance n q q c' ∧
      c'.course = .calling { r with index := r.index + 1, batch := batch } ∧
      c'.attempts = c.attempts ++ [⟨e, none⟩] := by
  obtain ⟨done, b, hlast⟩ := (List.eq_nil_or_concat c.batches).resolve_left hbatches
  rw [List.concat_eq_append] at hlast
  have hbatch : r.batch ≠ [] := hcons ▸ List.cons_ne_nil e batch
  refine ⟨_, .calls course hbatch hlast (Run.next_cons hcons q), rfl, ?_⟩
  rw [attempts, attempts, hlast, List.flatMap_append, List.flatMap_append, List.append_assoc,
    List.flatMap_singleton, List.flatMap_singleton]

theorem exists_advance_of_nil {r : Run Entry} {phase : Phase} {later : List Phase}
    (course : c.course = .moving r) (hbatch : r.batch = []) (hlater : r.later = phase :: later)
    (n : Nat) (q : Sequencer Entry) : ∃ c', c.Advance n q (q.take phase).2 c' ∧
      c'.course = .moving ⟨phase, 0, q.pending phase, later⟩ ∧ c'.batches ≠ [] ∧
      c'.attempts = c.attempts := by
  refine ⟨_, .opens course hbatch (congrArg (begin? · q) hlater), rfl, ?_, ?_⟩
  · exact List.append_ne_nil_of_right_ne_nil _ (List.cons_ne_nil _ _)
  · rw [attempts, List.flatMap_append, List.flatMap_singleton, List.append_nil]
    rfl

/-- What `Run.next` does at once, a call does move by move. -/
theorem exists_moves_of_next {r : Run Entry} (course : c.course = .moving r)
    (hbatches : c.batches ≠ []) (n : Nat) (q : Sequencer Entry) : ∃ c', Relation.ReflTransGen
      (fun x y : Sequencer Entry × Call => x.2.Advance n x.1 y.1 y.2) (q, c) ((r.next q).2, c') ∧
      match (r.next q).1 with
      | .call e r' => c'.course = .calling r' ∧ c'.attempts = c.attempts ++ [⟨e, none⟩]
      | .done => c'.course = .ended (.ok ()) ∧ c'.attempts = c.attempts := by
  generalize hlater : r.later = later
  -- on the phases to come: those with an empty batch are passed over
  induction later generalizing c r q with
  | nil =>
    cases hbatch : r.batch with
    | nil =>
      rw [Run.next_eq hbatch, hlater]
      exact ⟨_, .single (.returns course hbatch (congrArg (begin? · q) hlater)), rfl, rfl⟩
    | cons e batch =>
      obtain ⟨c', hmove, h⟩ := exists_advance_of_cons course hbatches hbatch n q
      rw [Run.next_cons hbatch]
      exact ⟨c', .single hmove, h⟩
  | cons phase later ih =>
    cases hbatch : r.batch with
    | nil =>
      obtain ⟨c', hopens, hcourse, hbatches', hattempts⟩ :=
        exists_advance_of_nil course hbatch hlater n q
      obtain ⟨c'', hmoves, h⟩ := ih hcourse hbatches' _ rfl
      rw [Run.next_eq hbatch, hlater]
      exact ⟨c'', .head hopens hmoves, hattempts ▸ h⟩
    | cons e batch =>
      obtain ⟨c', hmove, h⟩ := exists_advance_of_cons course hbatches hbatch n q
      rw [Run.next_cons hbatch]
      exact ⟨c', .single hmove, h⟩

end Call

end Logbook.Startup
