import Mathlib.Data.List.Flatten
import Mathlib.Data.List.Nodup
import Mathlib.Data.List.Pairwise
import Logbook.Proofs.Shutdown.Runs

/-! The order of the hooks of a sequencer. Each registered hook is in one place: in its list, or
taken by one opening of its stage. A run calls what it took in this order, so that over all runs no
hook is called twice. -/

namespace Logbook.Shutdown

variable {η : Type}

/-! ## Hooks that are registered, and hooks that are taken -/

/-- Whether a hook is in the list of a stage: it was registered after each opening of the stage. -/
def Entry.isPending (openings : List (Opening η)) (stage : Stage) (e : Entry η) : Bool :=
  e.stage = stage && openings.all fun o => o.stage ≠ stage || o.before ≤ e.number

theorem Entry.isPending_iff {openings : List (Opening η)} {stage : Stage} {e : Entry η} :
    e.isPending openings stage ↔
      e.stage = stage ∧ ∀ o ∈ openings, o.stage = stage → o.before ≤ e.number := by
  simp only [isPending, Bool.and_eq_true, decide_eq_true_eq, List.all_eq_true, Bool.or_eq_true,
    ne_eq, decide_not, Bool.not_eq_eq_eq_not, Bool.not_true, decide_eq_false_iff_not,
    Decidable.imp_iff_not_or]

/-- Where the registered hooks are, whatever the runs are. -/
structure Tallied (registered : List (Entry η)) (hooks : Stage → List (Entry η))
    (openings : List (Opening η)) : Prop where
  numbers : registered.map Entry.number = List.range registered.length
  pending (stage : Stage) : hooks stage = registered.filter (Entry.isPending openings stage)
  perm : (Stage.all.flatMap hooks ++ openings.flatMap Opening.taken).Perm registered
  before_le : ∀ o ∈ openings, o.before ≤ registered.length
  sublist : ∀ o ∈ openings, o.taken.Sublist registered
  taken : ∀ o ∈ openings, ∀ e ∈ o.taken, e.stage = o.stage ∧ e.number < o.before

theorem Stage.mem_all (stage : Stage) : stage ∈ all := by cases stage <;> decide

theorem Stage.nodup_all : all.Nodup := by decide

/-- The hooks of one stage apart from those of the others. -/
theorem perm_flatMap_all (stage : Stage) (f : Stage → List (Entry η)) :
    (Stage.all.flatMap f).Perm (f stage ++ (Stage.all.erase stage).flatMap f) :=
  (List.perm_cons_erase stage.mem_all).flatMap_right f

theorem flatMap_erase_congr {stage : Stage} {f g : Stage → List (Entry η)}
    (h : ∀ k, k ≠ stage → f k = g k) :
    (Stage.all.erase stage).flatMap f = (Stage.all.erase stage).flatMap g := by
  rw [List.flatMap_def, List.flatMap_def, List.map_congr_left fun k hk => h k ?_]
  exact (Stage.nodup_all.mem_erase_iff.mp hk).1

namespace Tallied

variable {registered : List (Entry η)} {hooks : Stage → List (Entry η)}
  {openings : List (Opening η)}

theorem number_lt (h : Tallied registered hooks openings) {e : Entry η} (he : e ∈ registered) :
    e.number < registered.length :=
  lt_of_numbered h.numbers he

theorem register (h : Tallied registered hooks openings) (stage : Stage) (hook : η) :
    Tallied (registered ++ [⟨registered.length, stage, hook⟩])
      (fun k => if k = stage then hooks k ++ [⟨registered.length, stage, hook⟩] else hooks k)
      openings where
  numbers := numbered_concat h.numbers rfl
  pending k := by
    rw [List.filter_append, ← h.pending k]
    by_cases hk : k = stage
    · have hnew : Entry.isPending openings k ⟨registered.length, stage, hook⟩ :=
        Entry.isPending_iff.mpr ⟨hk.symm, fun o ho _ => h.before_le o ho⟩
      rw [if_pos hk, List.filter_cons_of_pos hnew, List.filter_nil]
    · have hnew : ¬ Entry.isPending openings k ⟨registered.length, stage, hook⟩ :=
        fun hnew => hk (Entry.isPending_iff.mp hnew).1.symm
      rw [if_neg hk, List.filter_cons_of_neg hnew, List.filter_nil, List.append_nil]
  perm := by
    refine .trans (.append_right _ (perm_flatMap_all stage _)) ?_
    rw [if_pos rfl, flatMap_erase_congr (g := hooks) fun k hk => if_neg hk]
    refine .trans ?_
      (.append_right _ (.trans (.append_right _ (perm_flatMap_all stage _).symm) h.perm))
    simp only [List.append_assoc]
    refine .append_left _ ?_
    rw [← List.append_assoc _ _ [_]]
    exact List.perm_append_comm
  before_le o ho := by
    rw [List.length_append]
    exact Nat.le_add_right_of_le (h.before_le o ho)
  sublist o ho := (h.sublist o ho).trans (List.sublist_append_left ..)
  taken := h.taken

theorem opens {before after : List (Opening η)} (h : Tallied registered hooks (before ++ after))
    (stage : Stage) :
    Tallied registered (fun k => if k = stage then [] else hooks k)
      (before ++ ⟨stage, registered.length, hooks stage⟩ :: after) where
  numbers := h.numbers
  pending k := by
    by_cases hk : k = stage
    · rw [if_pos hk]
      refine (List.filter_eq_nil_iff.mpr fun e he hpending => ?_).symm
      have hle := (Entry.isPending_iff.mp hpending).2 _ (mem_between.mpr (.inl rfl)) hk.symm
      exact absurd (h.number_lt he) (Nat.not_lt.mpr hle)
    · rw [if_neg hk, h.pending k]
      refine List.filter_congr fun e _ => Bool.eq_iff_iff.mpr ?_
      rw [Entry.isPending_iff, Entry.isPending_iff]
      refine and_congr_right fun _ => ⟨fun hall o ho hstage => ?_, fun hall o ho => ?_⟩
      · rcases mem_between.mp ho with rfl | ho
        · exact absurd hstage.symm hk
        · exact hall o ho hstage
      · exact hall o (mem_between.mpr (.inr ho))
  perm := by
    refine .trans ?_ h.perm
    refine .trans (.append_right _ (perm_flatMap_all stage _)) ?_
    refine .trans ?_ (.append_right _ (perm_flatMap_all stage _).symm)
    rw [if_pos rfl, flatMap_erase_congr (g := hooks) fun k hk => if_neg hk]
    simp only [List.flatMap_append, List.flatMap_cons, List.nil_append, List.append_assoc]
    exact .trans (.append_left _ (List.perm_append_comm_assoc ..)) (List.perm_append_comm_assoc ..)
  before_le o ho := by
    rcases mem_between.mp ho with rfl | ho
    · exact Nat.le_refl _
    · exact h.before_le o ho
  sublist o ho := by
    rcases mem_between.mp ho with rfl | ho
    · exact h.pending stage ▸ List.filter_sublist
    · exact h.sublist o ho
  taken o ho := by
    rcases mem_between.mp ho with rfl | ho
    · intro e he
      obtain ⟨hmem, hpending⟩ := List.mem_filter.mp (h.pending stage ▸ he)
      exact ⟨(Entry.isPending_iff.mp hpending).1, h.number_lt hmem⟩
    · exact h.taken o ho

/-- A registered hook waits in the list of its stage, or was taken. -/
theorem mem_or (h : Tallied registered hooks openings) {e : Entry η} (he : e ∈ registered) :
    e ∈ hooks e.stage ∨ ∃ o ∈ openings, e ∈ o.taken := by
  rcases List.mem_append.mp (h.perm.mem_iff.mpr he) with he | he
  · obtain ⟨k, -, hk⟩ := List.mem_flatMap.mp he
    have hstage := (Entry.isPending_iff.mp (List.mem_filter.mp (h.pending k ▸ hk)).2).1
    exact .inl (hstage ▸ hk)
  · exact .inr (List.mem_flatMap.mp he)

/-- No number was taken twice. -/
theorem nodup_taken (h : Tallied registered hooks openings) :
    ((openings.flatMap Opening.taken).map Entry.number).Nodup := by
  have hall : ((Stage.all.flatMap hooks ++ openings.flatMap Opening.taken).map
      Entry.number).Nodup :=
    (h.perm.map Entry.number).nodup_iff.mpr (h.numbers ▸ List.nodup_range)
  rw [List.map_append] at hall
  exact (List.nodup_append.mp hall).2.1

/-- The hooks of one opening are taken in the order of their registration. -/
theorem pairwise_taken (h : Tallied registered hooks openings) {o : Opening η} (ho : o ∈ openings) :
    o.taken.Pairwise fun e f => e.number < f.number := by
  have hall : (registered.map Entry.number).Pairwise (· < ·) :=
    h.numbers ▸ List.pairwise_lt_range
  exact (List.pairwise_map.mp hall).sublist (h.sublist o ho)

end Tallied

/-! ## Stages that a run opens -/

variable {P : Surroundings η}

/-- Hooks that one opening has taken. -/
def Within (openings : List (Opening η)) (entries : List (Entry η)) : Prop :=
  entries = [] ∨ ∃ o ∈ openings, ∀ e ∈ entries, e ∈ o.taken

theorem Within.subset {openings : List (Opening η)} {entries rest : List (Entry η)}
    (h : Within openings entries) (hrest : rest ⊆ entries) : Within openings rest := by
  rcases h with rfl | ⟨o, ho, hall⟩
  · exact .inl (List.eq_nil_of_subset_nil hrest)
  · exact .inr ⟨o, ho, fun e he => hall e (hrest he)⟩

theorem Drain.rest_openStage (now : Nat) (stage : Stage) (later : List Stage) (d : Drain η)
    (q : Sequencer η) : (d.openStage now stage later q).1.rest = q.hooks stage := by
  cases h : q.hooks stage <;> simp [openStage, Sequencer.take, rest, h]

namespace Run

/-- The stages of a run. It opens all of them in their order, and calls the hooks that it takes in
the order in which it takes them. -/
inductive Staged (r : Run P) : Prop where
  | delaying {due : Nat} (course : r.course = .delaying due) (hopened : r.opened = [])
      (hcalls : r.calls = [])
  | missed (course : r.course = .failed []) (hopened : r.opened = []) (hcalls : r.calls = [])
  | moving {d : Drain (Entry η)} (course : r.course = .moving d)
      (ahead : r.opened.map Opening.stage ++ d.upcoming = Stage.all)
      (entries : r.calls.map Call.entry ++ d.rest = r.taken) (within : Within r.opened d.rest)
  | calling {d : Drain (Entry η)} {active : P.Active} {calls : List (Call η)} {k : Call η}
      (course : r.course = .calling d active)
      (ahead : r.opened.map Opening.stage ++ d.upcoming = Stage.all)
      (hcalls : r.calls = calls ++ [k]) (entries : r.calls.map Call.entry ++ d.rest = r.taken)
      (within : Within r.opened (k.entry :: d.rest))
  | panicked {dropped : List (Entry η)} {calls : List (Call η)} {k : Call η}
      (course : r.course = .failed dropped) (ahead : r.opened.map Opening.stage <+: Stage.all)
      (hcalls : r.calls = calls ++ [k]) (entries : r.calls.map Call.entry ++ dropped = r.taken)
      (within : Within r.opened (k.entry :: dropped))
  | finished {t : Nat} (course : r.course = .finished t)
      (ahead : r.opened.map Opening.stage = Stage.all)
      (entries : r.calls.map Call.entry = r.taken)

variable {c c' : Scene P} {r r' : Run P}

theorem Staged.of_moving {d : Drain (Entry η)} (h : r.Staged) (course : r.course = .moving d) :
    r.opened.map Opening.stage ++ d.upcoming = Stage.all ∧
      r.calls.map Call.entry ++ d.rest = r.taken ∧ Within r.opened d.rest := by
  cases h with
  | moving course' ahead entries within =>
    cases course.symm.trans course'; exact ⟨ahead, entries, within⟩
  | delaying course' | missed course' | calling course' | panicked course' | finished course' =>
    cases course.symm.trans course'

theorem Staged.of_calling {d : Drain (Entry η)} {active : P.Active} {calls : List (Call η)}
    {k : Call η} (h : r.Staged) (course : r.course = .calling d active)
    (hcalls : r.calls = calls ++ [k]) :
    r.opened.map Opening.stage ++ d.upcoming = Stage.all ∧
      r.calls.map Call.entry ++ d.rest = r.taken ∧ Within r.opened (k.entry :: d.rest) := by
  cases h with
  | calling course' ahead hcalls' entries within =>
    cases course.symm.trans course'
    obtain ⟨rfl, rfl⟩ := List.append_singleton_inj.mp (hcalls.symm.trans hcalls')
    exact ⟨ahead, entries, within⟩
  | delaying course' | missed course' | moving course' | panicked course' | finished course' =>
    cases course.symm.trans course'

/-- A run takes hooks when it opens a stage, and nothing else takes hooks. -/
theorem Advance.opened_cases (h : r.Advance c c' r') :
    r'.opened = r.opened ∧ c'.sequencer.hooks = c.sequencer.hooks ∨
      ∃ stage, r'.opened = r.opened ++ [⟨stage, c.registered.length, c.sequencer.hooks stage⟩] ∧
        c'.sequencer.hooks = fun k => if k = stage then [] else c.sequencer.hooks k := by
  cases h with
  | start | miss | proceeds | returns | panics => exact .inl ⟨rfl, rfl⟩
  | opens _ _ _ h => cases Drain.next_of_step h; exact .inr ⟨_, rfl, rfl⟩
  | calls _ _ _ h | closes _ _ _ h | emits _ _ _ h | finishes _ _ _ h =>
    cases Drain.next_of_step h; exact .inl ⟨rfl, rfl⟩

theorem Staged.advance (hr : r.Staged) (h : r.Advance c c' r') : r'.Staged := by
  cases h with
  | start masked id moment course hdue h =>
    cases hr with
    | delaying course' hopened hcalls =>
      simp only [Drain.start?, later?, Option.map_if, Option.ite_none_right_eq_some,
        Option.some.injEq] at h
      obtain ⟨-, rfl⟩ := h
      refine .moving rfl ?_ ?_ (.inl rfl)
      · rw [hopened]; rfl
      · simp only [hcalls, taken, hopened]; rfl
    | missed course' | moving course' | calling course' | panicked course' | finished course' =>
      cases course.symm.trans course'
  | miss masked id moment course =>
    cases hr with
    | delaying course' hopened hcalls => exact .missed rfl hopened hcalls
    | missed course' | moving course' | calling course' | panicked course' | finished course' =>
      cases course.symm.trans course'
  | opens masked moment course h =>
    obtain ⟨ahead, entries, within⟩ := hr.of_moving course
    cases Drain.next_of_step h with
    | opened current upcoming =>
      refine .moving rfl ?_ ?_ (.inr ⟨_, List.mem_concat_self, ?_⟩)
      · rw [List.map_append, List.append_assoc, ← ahead, upcoming]; rfl
      · simp only [Drain.rest, current, List.append_nil] at entries
        simp only [Drain.rest_openStage, entries, taken, List.flatMap_append,
          List.flatMap_singleton]
      · exact fun e he => Drain.rest_openStage .. ▸ he
  | calls masked moment course h =>
    obtain ⟨ahead, entries, within⟩ := hr.of_moving course
    cases Drain.next_of_step h with
    | call current hrest =>
      simp only [Drain.rest, current, hrest] at entries within
      refine .calling rfl ahead rfl ?_ within
      rw [List.map_append, List.append_assoc]
      exact entries
  | proceeds f course hcalls =>
    obtain ⟨ahead, entries, within⟩ := hr.of_calling course hcalls
    exact .calling rfl ahead hcalls entries within
  | returns course hcalls =>
    obtain ⟨ahead, entries, within⟩ := hr.of_calling course hcalls
    refine .moving rfl ahead ?_ (within.subset (List.subset_cons_self ..))
    rw [hcalls, List.map_append] at entries
    rw [List.map_append]
    exact entries
  | panics course hcalls =>
    obtain ⟨ahead, entries, within⟩ := hr.of_calling course hcalls
    exact .panicked rfl (ahead ▸ List.prefix_append ..) hcalls entries within
  | closes masked moment course h =>
    obtain ⟨ahead, entries, within⟩ := hr.of_moving course
    cases Drain.next_of_step h with
    | closed current hrest =>
      simp only [Drain.rest, current, hrest] at entries
      exact .moving rfl ahead entries (.inl rfl)
  | emits masked moment course h =>
    obtain ⟨ahead, entries, within⟩ := hr.of_moving course
    cases Drain.next_of_step h with
    | emitted => exact .moving rfl ahead entries within
  | finishes masked moment course h =>
    obtain ⟨ahead, entries, within⟩ := hr.of_moving course
    cases Drain.next_of_step h with
    | finished current upcoming =>
      rw [upcoming, List.append_nil] at ahead
      simp only [Drain.rest, current, List.append_nil] at entries
      exact .finished rfl ahead entries

theorem Staged.entries_eq (h : r.Staged) : r.calls.map Call.entry ++ r.course.rest = r.taken := by
  cases h with
  | delaying course hopened hcalls | missed course hopened hcalls =>
    simp only [course, hcalls, taken, hopened]; rfl
  | moving course _ entries | calling course _ _ entries | panicked course _ _ entries =>
    rw [course]; exact entries
  | finished course _ entries => rw [course]; exact (List.append_nil _).trans entries

theorem Staged.stages (h : r.Staged) : r.opened.map Opening.stage <+: Stage.all := by
  cases h with
  | delaying _ hopened | missed _ hopened => rw [hopened]; exact List.nil_prefix
  | moving _ ahead | calling _ ahead => exact ahead ▸ List.prefix_append ..
  | panicked _ ahead => exact ahead
  | finished _ ahead => exact ahead ▸ List.prefix_refl _

end Run

/-! ## The record of the stop -/

/-- While a stage is ahead that runs inside the record of the stop, this record is not emitted. -/
def Drain.Recording (d : Drain η) : Prop :=
  (∃ k ∈ d.upcoming, k.isRecorded = true) →
    ∃ stop, d.carrier = .record stop ∧ stop.actionType = stopType ∧ stop.emitted = false

def Course.Recording : Course P → Prop
  | .moving d | .calling d _ => d.Recording
  | .delaying _ | .finished _ | .failed _ => True

theorem Drain.Recording.modify {d : Drain η} (h : d.Recording) (f : Trace.Scope → Trace.Scope) :
    Drain.Recording { d with carrier := d.carrier.modify f } := by
  intro hahead
  obtain ⟨stop, carrier, htype, hemitted⟩ := h hahead
  exact ⟨{ stop with scope := f stop.scope }, by rw [carrier]; rfl, htype, hemitted⟩

/-- Behind a stage outside of the record of the stop there is none inside of it. -/
theorem Stage.isRecorded_of_mem {before later : List Stage} {stage k : Stage}
    (h : before ++ stage :: later = all) (hk : k ∈ stage :: later)
    (hrecorded : k.isRecorded = true) :
    stage.isRecorded = true := by
  have hall : all.Pairwise fun k l => l.isRecorded = true → k.isRecorded = true := by decide
  rw [← h] at hall
  rcases List.mem_cons.mp hk with rfl | hk
  · exact hrecorded
  · exact (List.pairwise_cons.mp (List.pairwise_append.mp hall).2.1).1 k hk hrecorded

theorem Run.Staged.recording {c c' : Scene P} {r r' : Run P} (hr : r.Staged)
    (hrecording : r.course.Recording) (h : r.Advance c c' r') : r'.course.Recording := by
  cases h with
  | start masked id moment course hdue h =>
    simp only [Drain.start?, Option.map_eq_some_iff] at h
    obtain ⟨_, -, rfl⟩ := h
    exact fun _ => ⟨_, rfl, rfl, rfl⟩
  | miss | panics | finishes => trivial
  | opens masked moment course h =>
    rw [course] at hrecording
    cases Drain.next_of_step h with
    | opened current upcoming =>
      rintro ⟨k, hk, hrecorded⟩
      exact hrecording ⟨k, upcoming ▸ List.mem_cons_of_mem _ hk, hrecorded⟩
  | calls masked moment course h =>
    rw [course] at hrecording
    cases Drain.next_of_step h with
    | call => exact hrecording
  | proceeds f course =>
    rw [course] at hrecording
    exact hrecording.modify f
  | returns course =>
    rw [course] at hrecording
    exact hrecording
  | closes masked moment course h =>
    rw [course] at hrecording
    cases Drain.next_of_step h with
    | closed => exact (hrecording.modify _).modify _
  | emits masked moment course h =>
    obtain ⟨ahead, -⟩ := hr.of_moving course
    cases Drain.next_of_step h with
    | emitted current upcoming hrecorded =>
      rintro ⟨k, hk, hk'⟩
      rw [upcoming] at ahead hk
      cases hrecorded.symm.trans (Stage.isRecorded_of_mem ahead hk hk')

/-- The order of the calls of a run: by stage, and in a stage by registration. -/
def Entry.Precedes (e f : Entry η) : Prop :=
  e.stage.index < f.stage.index ∨ e.stage = f.stage ∧ e.number < f.number

theorem Entry.Precedes.asymm {e f : Entry η} (h : e.Precedes f) : ¬ f.Precedes e := by
  rcases h with hlt | ⟨hstage, hlt⟩ <;> rintro (hlt' | ⟨hstage', hlt'⟩)
  · exact Nat.lt_asymm hlt hlt'
  · exact Nat.ne_of_gt hlt (congrArg Stage.index hstage')
  · exact Nat.ne_of_gt hlt' (congrArg Stage.index hstage)
  · exact Nat.lt_asymm hlt hlt'

namespace Run

/-- The run has taken the hook and calls it later. -/
def WillCall (r : Run P) (e : Entry η) : Prop := ¬ r.IsOver ∧ e ∈ r.course.rest

/-- The run had taken the hook when another one of the same stage panicked before it. -/
def Dropped (r : Run P) (e : Entry η) : Prop :=
  ∃ dropped calls k, r.course = .failed dropped ∧ e ∈ dropped ∧ r.calls = calls ++ [k] ∧
    k.entry.stage = e.stage ∧ k.entry.number < e.number

end Run

namespace Drains

variable {timeout : Nat} {delay : Option Nat} {state : P.State} {s t : Drains P}

/-- All openings, those of each run in their order. -/
def openings (s : Drains P) : List (Opening η) := s.runs.flatMap Run.opened

theorem Reachable.staged (h : Reachable timeout delay state s) : ∀ r ∈ s.runs, r.Staged :=
  h.all_runs (Q := fun _ r => r.Staged) (fun _ => .delaying rfl rfl rfl) (fun _ => .advance)
    fun hr _ => hr

theorem Reachable.recording (h : Reachable timeout delay state s) :
    ∀ r ∈ s.runs, r.course.Recording := by
  have hall := h.all_runs (Q := fun _ r => r.Staged ∧ r.course.Recording)
    (fun _ => ⟨.delaying rfl rfl rfl, trivial⟩)
    (fun _ hr h => ⟨hr.1.advance h, hr.1.recording hr.2 h⟩) fun hr _ => hr
  exact fun r hr => (hall r hr).2

theorem Reachable.tallied (h : Reachable timeout delay state s) :
    Tallied s.registered s.sequencer.hooks s.openings := by
  refine Later.keeps (Q := fun s => Tallied s.registered s.sequencer.hooks s.openings)
    (fun {s t} hs h => ?_) h ?_
  · cases h with
    | register stage hook => exact hs.register stage hook
    | begin =>
      rwa [show openings (begin s) = s.openings by simp [openings, begin]]
    | works | tick => exact hs
    | @advance before after r r' c hruns h =>
      simp only [openings, hruns, List.flatMap_append, List.flatMap_cons] at hs ⊢
      rw [show Scene.registered _ = _ from h.registered_eq]
      rcases h.opened_cases with ⟨hopened, hhooks⟩ | ⟨stage, hopened, hhooks⟩
      · rwa [hopened, hhooks]
      · rw [hopened, hhooks, List.append_assoc, ← List.append_assoc]
        rw [← List.append_assoc] at hs
        exact hs.opens stage
  · exact ⟨rfl, fun _ => rfl, .nil, nofun, nofun, nofun⟩

/-- Some run has called the hook. -/
def Called (s : Drains P) (e : Entry η) : Prop := ∃ r ∈ s.runs, ∃ k ∈ r.calls, k.entry = e

theorem Reachable.taken_sorted (h : Reachable timeout delay state s) {r : Run P}
    (hr : r ∈ s.runs) : r.taken.Pairwise Entry.Precedes := by
  have hmem : ∀ o ∈ r.opened, o ∈ s.openings := fun o ho => List.mem_flatMap.mpr ⟨r, hr, ho⟩
  have hstages : r.opened.Pairwise fun o o' => o.stage.index < o'.stage.index := by
    have hall : Stage.all.Pairwise fun k k' => k.index < k'.index := by decide
    exact (hall.sublist (h.staged r hr).stages.sublist).of_map Opening.stage fun _ _ hlt => hlt
  refine List.pairwise_flatMap.mpr
    ⟨fun o ho => ?_, hstages.imp_of_mem fun ho ho' hlt e he e' he' => ?_⟩
  · refine (h.tallied.pairwise_taken (hmem o ho)).imp_of_mem fun he he' hlt => .inr ⟨?_, hlt⟩
    rw [(h.tallied.taken o (hmem o ho) _ he).1, (h.tallied.taken o (hmem o ho) _ he').1]
  · refine .inl ?_
    rwa [(h.tallied.taken _ (hmem _ ho) _ he).1, (h.tallied.taken _ (hmem _ ho') _ he').1]

theorem Reachable.calls_sorted (h : Reachable timeout delay state s) {r : Run P}
    (hr : r ∈ s.runs) : r.calls.Pairwise fun k l => k.entry.Precedes l.entry := by
  have hsorted := h.taken_sorted hr
  rw [← (h.staged r hr).entries_eq] at hsorted
  exact List.pairwise_map.mp (List.pairwise_append.mp hsorted).1

/-- All runs together take no number twice, whether the hook has been called or not. -/
theorem Reachable.nodup_entries (h : Reachable timeout delay state s) :
    (s.runs.flatMap fun r =>
      r.calls.map (·.entry.number) ++ r.course.rest.map Entry.number).Nodup := by
  have hnodup := h.tallied.nodup_taken
  rw [openings, List.flatMap_assoc, List.map_flatMap] at hnodup
  rwa [List.flatMap_def, List.map_congr_left fun r hr => ?_, ← List.flatMap_def]
  rw [← Run.taken, ← (h.staged r hr).entries_eq, List.map_append, List.map_map]
  rfl

theorem Reachable.called_of_taken (h : Reachable timeout delay state s) {r : Run P}
    (hr : r ∈ s.runs) {e : Entry η} (he : e ∈ r.taken) :
    (∃ k ∈ r.calls, k.entry = e) ∨ r.WillCall e ∨ r.Dropped e := by
  have hsorted := h.taken_sorted hr
  have hstaged := h.staged r hr
  rw [← hstaged.entries_eq] at he hsorted
  rcases List.mem_append.mp he with he | he
  · exact .inl (List.mem_map.mp he)
  cases hstaged with
  | delaying course | missed course | finished course => rw [course] at he; cases he
  | moving course | calling course =>
    refine .inr (.inl ⟨fun hover => ?_, he⟩)
    rcases hover with ⟨_, course'⟩ | ⟨_, course'⟩ <;> cases course.symm.trans course'
  | panicked course _ hcalls _ within =>
    rw [course] at he hsorted
    rw [hcalls] at hsorted
    have hprecedes := (List.pairwise_append.mp hsorted).2.2 _
      (List.mem_map_of_mem List.mem_concat_self) e he
    -- the hook that panicked and those it kept from being called are of one opening
    obtain h | ⟨o, ho, hwithin⟩ := within
    · cases h
    have htaken := h.tallied.taken o (List.mem_flatMap.mpr ⟨r, hr, ho⟩)
    have hstage := (htaken _ (hwithin _ (List.mem_cons_self ..))).1.trans
      (htaken _ (hwithin e (List.mem_cons_of_mem _ he))).1.symm
    refine .inr (.inr ⟨_, _, _, course, he, hcalls, hstage, ?_⟩)
    rcases hprecedes with hlt | ⟨-, hlt⟩
    · exact absurd (congrArg Stage.index hstage) (Nat.ne_of_lt hlt)
    · exact hlt

/-- A hook that comes before another one was called before it. -/
theorem Reachable.mem_before_of_precedes (h : Reachable timeout delay state s) {r : Run P}
    (hr : r ∈ s.runs) {before after : List (Call η)} {k l : Call η}
    (hcalls : r.calls = before ++ k :: after) (hl : l ∈ r.calls)
    (hprecedes : l.entry.Precedes k.entry) : l ∈ before := by
  have hsorted := h.calls_sorted hr
  rw [hcalls] at hl hsorted
  have hlater := (List.pairwise_cons.mp (List.pairwise_append.mp hsorted).2.1).1
  rcases List.mem_append.mp hl with hl | hl
  · exact hl
  · rcases List.mem_cons.mp hl with rfl | hl
    · exact absurd hprecedes hprecedes.asymm
    · exact absurd (hlater l hl) hprecedes.asymm

/-- Between two stages all hooks that the run took have been called. -/
theorem Reachable.call_of_taken (h : Reachable timeout delay state s) {r : Run P}
    (hr : r ∈ s.runs) {d : Drain (Entry η)} (course : r.course = .moving d)
    (current : d.current = none) {e : Entry η} (he : e ∈ r.taken) : ∃ k ∈ r.calls, k.entry = e := by
  obtain ⟨-, entries, -⟩ := (h.staged r hr).of_moving course
  simp only [Drain.rest, current, List.append_nil] at entries
  exact List.mem_map.mp (entries ▸ he)

/-- A hook that was registered before its stage was opened is taken. -/
theorem Reachable.taken_of_lt (h : Reachable timeout delay state s) {o : Opening η}
    (ho : o ∈ s.openings) {e : Entry η} (he : e ∈ s.registered) (hstage : e.stage = o.stage)
    (hlt : e.number < o.before) : ∃ r ∈ s.runs, e ∈ r.taken := by
  rcases h.tallied.mem_or he with hpending | ⟨o', ho', htaken⟩
  · rw [h.tallied.pending] at hpending
    have hle := (Entry.isPending_iff.mp (List.mem_filter.mp hpending).2).2 o ho hstage.symm
    exact absurd hlt (Nat.not_lt.mpr hle)
  · obtain ⟨r, hr, hopened⟩ := List.mem_flatMap.mp ho'
    exact ⟨r, hr, List.mem_flatMap.mpr ⟨o', hopened, htaken⟩⟩

/-- A run does not take a hook that was registered after it had opened its stage. -/
theorem Reachable.not_taken_of_le (h : Reachable timeout delay state s) {r : Run P}
    (hr : r ∈ s.runs) {o : Opening η} (ho : o ∈ r.opened) {e : Entry η} (hstage : e.stage = o.stage)
    (hle : o.before ≤ e.number) : e ∉ r.taken := by
  intro he
  obtain ⟨o', ho', htaken⟩ := List.mem_flatMap.mp he
  obtain ⟨hstage', hlt⟩ := h.tallied.taken o' (List.mem_flatMap.mpr ⟨r, hr, ho'⟩) e htaken
  have hnodup : (r.opened.map Opening.stage).Nodup :=
    Stage.nodup_all.sublist (h.staged r hr).stages.sublist
  have heq : o' = o := List.inj_on_of_nodup_map hnodup ho' ho (hstage'.symm.trans hstage)
  rw [heq] at hlt
  exact absurd hlt (Nat.not_lt.mpr hle)

theorem Reachable.stages_of_finished (h : Reachable timeout delay state s) {r : Run P}
    (hr : r ∈ s.runs) {t : Nat} (course : r.course = .finished t) :
    r.opened.map Opening.stage = Stage.all := by
  cases h.staged r hr with
  | finished _ ahead => exact ahead
  | delaying course' | missed course' | moving course' | calling course' | panicked course' =>
    cases course.symm.trans course'

/-- A hook that was registered before its stage was opened is called now or later, or dropped. -/
theorem Reachable.called_of_lt (h : Reachable timeout delay state s) {r : Run P} (hr : r ∈ s.runs)
    {o : Opening η} (ho : o ∈ r.opened) {e : Entry η} (he : e ∈ s.registered)
    (hstage : e.stage = o.stage) (hlt : e.number < o.before) :
    s.Called e ∨ (∃ r' ∈ s.runs, r'.WillCall e) ∨ ∃ r' ∈ s.runs, r'.Dropped e := by
  obtain ⟨r', hr', htaken⟩ := h.taken_of_lt (List.mem_flatMap.mpr ⟨r, hr, ho⟩) he hstage hlt
  rcases h.called_of_taken hr' htaken with hcalled | hlater | hdropped
  · exact .inl ⟨r', hr', hcalled⟩
  · exact .inr (.inl ⟨r', hr', hlater⟩)
  · exact .inr (.inr ⟨r', hr', hdropped⟩)

/-- A hook that was registered later is not called by this run, and stays in its list until another
one opens the stage. -/
theorem Reachable.left_of_le (h : Reachable timeout delay state s) {r : Run P} (hr : r ∈ s.runs)
    {o : Opening η} (ho : o ∈ r.opened) {e : Entry η} (he : e ∈ s.registered)
    (hstage : e.stage = o.stage) (hle : o.before ≤ e.number) :
    (∀ k ∈ r.calls, k.entry ≠ e) ∧
      (e ∈ s.sequencer.hooks e.stage ∨
        ∃ o' ∈ s.openings, o'.stage = e.stage ∧ e.number < o'.before) := by
  constructor
  · intro k hk hke
    refine h.not_taken_of_le hr ho hstage hle ?_
    rw [← (h.staged r hr).entries_eq]
    exact List.mem_append_left _ (List.mem_map.mpr ⟨k, hk, hke⟩)
  · rw [h.tallied.pending, List.mem_filter, Entry.isPending_iff]
    by_cases hlater : ∃ o' ∈ s.openings, o'.stage = e.stage ∧ e.number < o'.before
    · exact .inr hlater
    · refine .inl ⟨he, rfl, ?_⟩
      intro o' ho' hstage'
      exact Nat.not_lt.mp fun hlt => hlater ⟨o', ho', hstage', hlt⟩

/-- **Order of the hooks.** Each run calls its hooks one at a time, by stage and in a stage by
registration, and at its end has opened all stages. A hook that was registered before its stage was
opened is called, unless one before it in the stage panics; a hook that was registered later is not
called by this run and is counted until another run opens the stage. No hook is called twice,
whatever runs go on at the same time. -/
theorem calls_in_order (h : Reachable timeout delay state s) :
    (∀ r ∈ s.runs,
      r.calls.Pairwise Call.Ends ∧ r.calls.Pairwise (fun k l => k.entry.Precedes l.entry) ∧
      (∀ t, r.course = .finished t → r.opened.map Opening.stage = Stage.all) ∧
      ∀ o ∈ r.opened, ∀ e ∈ s.registered, e.stage = o.stage →
        (e.number < o.before →
          s.Called e ∨ (∃ r' ∈ s.runs, r'.WillCall e) ∨ ∃ r' ∈ s.runs, r'.Dropped e) ∧
        (o.before ≤ e.number → (∀ k ∈ r.calls, k.entry ≠ e) ∧
          (e ∈ s.sequencer.hooks e.stage ∨
            ∃ o' ∈ s.openings, o'.stage = e.stage ∧ e.number < o'.before))) ∧
    (∀ stage, s.sequencer.hookCount stage =
      s.registered.countP (Entry.isPending s.openings stage)) ∧
    ((s.runs.flatMap Run.calls).map fun k => k.entry.number).Nodup := by
  refine ⟨?_, ?_, ?_⟩
  · intro r hr
    refine ⟨(h.timed r hr).pairwise, h.calls_sorted hr, fun t => h.stages_of_finished hr, ?_⟩
    intro o ho e he hstage
    exact ⟨h.called_of_lt hr ho he hstage, h.left_of_le hr ho he hstage⟩
  · intro stage
    rw [Sequencer.hookCount, h.tallied.pending, List.countP_eq_length_filter]
  · refine h.nodup_entries.sublist ?_
    rw [List.map_flatMap]
    exact List.Sublist.flatMap_right _ fun r _ => List.sublist_append_left ..

/-- Hooks that end as soon as they are called: each returns, or panics. -/
def sudden : Surroundings Bool where
  State := Unit
  Active := Unit
  works _ _ _ _ := False
  calls _ _ _ _ _ _ := True
  proceeds _ _ _ _ _ _ := False
  returns hook _ _ _ _ := hook = true
  panics hook _ _ _ _ := hook = false
  waits _ _ _ _ := False
  exists_calls _ _ _ _ := ⟨(), (), trivial⟩

theorem sudden_calls (hook : Bool) (budget now : Nat) : sudden.calls hook budget now () () () :=
  trivial

theorem sudden_returns {now : Nat} : sudden.returns true now () () () := rfl

theorem sudden_panics {now : Nat} : sudden.panics false now () () () := rfl

/-- While its first hook runs, one is registered for the same stage and one for the next stage. -/
theorem calls_in_order_registeredMeanwhile : ∃ s : Drains sudden, Reachable 25000 none () s ∧
    (∃ r ∈ s.runs, r.course = .finished 0 ∧ r.calls.map (·.entry.number) = [0, 2]) ∧
    s.sequencer.hookCount .application = 1 := by
  have h : Reachable 25000 none () (register .application true (start sudden 25000 none ())) :=
    .step .refl (.register ..)
  have h := (h.step .begin).step (.only rfl (.start .empty "id" ⟨0, 0⟩ rfl (Nat.le_refl _) rfl))
  have h := h.step (.only rfl (.opens .empty ⟨0, 0⟩ rfl rfl))
  have h := h.step (.only rfl (.opens .empty ⟨0, 0⟩ rfl rfl))
  have h := h.step (.only rfl (.opens .empty ⟨0, 0⟩ rfl rfl))
  have h := h.step (.only rfl (.opens .empty ⟨0, 0⟩ rfl rfl))
  have h := h.step (.only rfl (.opens .empty ⟨0, 0⟩ rfl rfl))
  have h := h.step (.only rfl (.opens .empty ⟨0, 0⟩ rfl rfl))
  have h := h.step (.only rfl (.calls .empty ⟨0, 0⟩ rfl rfl (sudden_calls ..)))
  have h := (h.step (.register .application true)).step (.register .releaseClients true)
  have h := h.step (.only rfl (.returns rfl (List.nil_append _).symm sudden_returns))
  have h := h.step (.only rfl (.closes .empty ⟨0, 0⟩ rfl rfl))
  have h := h.step (.only rfl (.opens .empty ⟨0, 0⟩ rfl rfl))
  have h := h.step (.only rfl (.calls .empty ⟨0, 0⟩ rfl rfl (sudden_calls ..)))
  have h := h.step (.only rfl (.returns rfl (List.singleton_append).symm sudden_returns))
  have h := h.step (.only rfl (.closes .empty ⟨0, 0⟩ rfl rfl))
  have h := h.step (.only rfl (.emits .empty ⟨0, 0⟩ rfl rfl))
  have h := h.step (.only rfl (.opens .empty ⟨0, 0⟩ rfl rfl))
  have h := h.step (.only rfl (.opens .empty ⟨0, 0⟩ rfl rfl))
  have h := h.step (.only rfl (.finishes .empty ⟨0, 0⟩ rfl rfl))
  exact ⟨_, h, ⟨_, .head _, rfl, rfl⟩, ((calls_in_order h).2.1 .application).trans rfl⟩

/-- A hook that is waiting to be called has not been called. -/
theorem Reachable.not_called_of_rest (h : Reachable timeout delay state s) {r : Run P}
    (hr : r ∈ s.runs) {e : Entry η} (he : e ∈ r.course.rest) : ¬ s.Called e := by
  rintro ⟨r', hr', k, hk, rfl⟩
  obtain ⟨hsingle, hall⟩ := List.nodup_flatMap.mp h.nodup_entries
  have : Std.Symm (Function.onFun List.Disjoint fun r : Run P =>
      r.calls.map (·.entry.number) ++ r.course.rest.map Entry.number) :=
    ⟨fun _ _ hdisjoint _ hmem hmem' => hdisjoint hmem' hmem⟩
  have hrest := List.mem_map_of_mem (f := Entry.number) he
  have hcalls := List.mem_map_of_mem (f := fun k : Call η => k.entry.number) hk
  by_cases heq : r' = r
  · subst heq
    exact (List.nodup_append.mp (hsingle r' hr')).2.2 _ hcalls _ hrest rfl
  · exact hall.forall hr' hr heq (List.mem_append_left _ hcalls) (List.mem_append_right _ hrest)

/-- A run that is over stays as it is. -/
theorem Later.mem_of_isOver (H : Later s t) {r : Run P} (hr : r ∈ s.runs) (hover : r.IsOver) :
    r ∈ t.runs := by
  refine H.keeps (Q := fun s => r ∈ s.runs) (fun {s t} hr h => ?_) hr
  cases h with
  | register | works | tick => exact hr
  | begin => exact List.mem_append_left _ hr
  | advance hruns h =>
    rcases mem_between.mp (hruns ▸ hr) with rfl | hr
    · exact absurd hover h.not_isOver
    · exact mem_between.mpr (.inr hr)

/-- The first hook of a stage panics; the other one, registered before the drain, is never
called. -/
theorem never_called : ∃ s : Drains sudden, Reachable 25000 none () s ∧ ∃ r ∈ s.runs,
    ∃ o ∈ r.opened, ∃ e ∈ s.registered, e.stage = o.stage ∧ e.number < o.before ∧
      ∀ t, Later s t → ¬ t.Called e := by
  have h : Reachable 25000 none ()
      (register .application true (register .application false (start sudden 25000 none ()))) :=
    .step (.step .refl (.register ..)) (.register ..)
  have h := (h.step .begin).step (.only rfl (.start .empty "id" ⟨0, 0⟩ rfl (Nat.le_refl _) rfl))
  have h := h.step (.only rfl (.opens .empty ⟨0, 0⟩ rfl rfl))
  have h := h.step (.only rfl (.opens .empty ⟨0, 0⟩ rfl rfl))
  have h := h.step (.only rfl (.opens .empty ⟨0, 0⟩ rfl rfl))
  have h := h.step (.only rfl (.opens .empty ⟨0, 0⟩ rfl rfl))
  have h := h.step (.only rfl (.opens .empty ⟨0, 0⟩ rfl rfl))
  have h := h.step (.only rfl (.opens .empty ⟨0, 0⟩ rfl rfl))
  have h := h.step (.only rfl (.calls .empty ⟨0, 0⟩ rfl rfl (sudden_calls ..)))
  have h := h.step (.only rfl (.panics rfl (List.nil_append _).symm sudden_panics))
  refine ⟨_, h, _, .head _, _, List.mem_concat_self, ⟨1, .application, true⟩,
    .tail _ (.head _), rfl, by decide, fun t H => ?_⟩
  exact Reachable.not_called_of_rest (h.trans H) (H.mem_of_isOver (.head _) (.inr ⟨_, rfl⟩))
    (.head _)

end Drains

end Logbook.Shutdown
