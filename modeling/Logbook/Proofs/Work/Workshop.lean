import Mathlib.Logic.Function.Basic
import Logbook.Proofs.Lists
import Logbook.Proofs.Shutdown.Drains
import Logbook.Proofs.Work.Conservation
import Logbook.Waiters
import Logbook.Work.Tracker

/-! The pools of a service and the units of work that are joined to its tracker. Jobs of the pools
and joined units may bring new units, and anybody may hand in jobs and bring units from outside.
Those who wait for the tracker are let go when it is drained; by then all units that were joined
before their wait have ended (`Sound.waited`), and if no stranger has brought another unit since and
no job has, none is left and none will come (`Sound.quiet`). Units write into their scope as jobs
do. -/

namespace Logbook.Work

variable {π : Type}

/-- A unit that was joined to the tracker, and its record once it has begun. -/
structure Member where
  unit : Job
  record : Option Record

/-- Who brings a unit of work. -/
inductive Source (π : Type) where
  | unit
  | job (pool : π)
  | outside

/-- How many units there had been when somebody began to wait for the tracker. -/
structure Wait where
  joined : Nat
  strangers : Nat
  ofJobs : Nat

structure Workshop (π : Type) where
  pools : π → Executor
  tracker : Tracker
  /-- Those who wait for the tracker, by the number of their wait. -/
  waiters : Waiters Nat
  waits : List Wait
  members : List Member
  /-- All units that were joined, in this order. -/
  joined : List Job
  /-- How many of these have come from outside, and from jobs. -/
  strangers : Nat
  ofJobs : Nat
  finished : List Finished
  /-- What was reported at the deadlines of waits. -/
  overdue : List (String × List (String × String))

namespace Workshop

def start (pools : π → Executor) : Workshop π where
  pools := pools
  tracker := .empty
  waiters := .none
  waits := []
  members := []
  joined := []
  strangers := 0
  ofJobs := 0
  finished := []
  overdue := []

def ofPools (names : π → String) (sizes : π → Nat) : Workshop π :=
  start fun p => Executor.start (names p) (sizes p)

/-- Changes the tracker and lets go those who wait if it becomes drained. -/
def updateTracker (f : Tracker → Tracker) (w : Workshop π) : Workshop π :=
  { w with
    tracker := f w.tracker
    waiters := if w.tracker.becomesDrained (f w.tracker) then w.waiters.ring.2 else w.waiters }

def join (source : Source π) (link : Trace.Link) (action : String) (w : Workshop π) : Workshop π :=
  let unit : Job := ⟨w.joined.length, link, action⟩
  { w.updateTracker Tracker.join with
    members := w.members ++ [⟨unit, none⟩]
    joined := w.joined ++ [unit]
    strangers := match source with
      | .outside => w.strangers + 1
      | .unit | .job _ => w.strangers
    ofJobs := match source with
      | .job _ => w.ofJobs + 1
      | .unit | .outside => w.ofJobs }

/-- A unit is brought by one that has not ended, by a job that runs, or from outside. -/
def CanBring (w : Workshop π) : Source π → Prop
  | .unit => w.members ≠ []
  | .job p => (w.pools p).busy ≠ []
  | .outside => True

/-- A wait for the tracker begins: the tracker is closed, and the waiter is listed. -/
def await (w : Workshop π) : Workshop π :=
  let w := w.updateTracker Tracker.close
  { w with
    waiters := w.waiters.enlist w.waits.length
    waits := w.waits ++ [⟨w.joined.length, w.strangers, w.ofJobs⟩] }

/-- A waiter leaves. -/
def strike (i : Nat) (w : Workshop π) : Workshop π := { w with waiters := w.waiters.strike i }

def warn (notice : String × List (String × String)) (w : Workshop π) : Workshop π :=
  { w with overdue := w.overdue ++ [notice] }

variable [DecidableEq π]

def setPool (p : π) (e : Executor) (w : Workshop π) : Workshop π :=
  { w with pools := Function.update w.pools p e }

theorem setPool_self (p : π) (e : Executor) (w : Workshop π) : (w.setPool p e).pools p = e :=
  Function.update_self ..

theorem setPool_of_ne {p q : π} (h : q ≠ p) (e : Executor) (w : Workshop π) :
    (w.setPool p e).pools q = w.pools q :=
  Function.update_of_ne h ..

/-- A move of the work. Bodies end as they like, once they have begun. -/
inductive Step (w : Workshop π) : Workshop π → Prop where
  | pool (p : π) {e : Executor}
      (h : Executor.Advance (w.pools p) e ∨ Executor.Other (w.pools p) e) :
      Step w (w.setPool p e)
  | join (source : Source π) (link : Trace.Link) (action : String) (h : w.CanBring source) :
      Step w (w.join source link action)
  | begin {before after : List Member} {unit : Job} (id : String) (o : Occasion)
      (h : w.members = before ++ ⟨unit, none⟩ :: after) :
      Step w { w with
        members := before ++
          ⟨unit, some (Record.startChild o.masked unit.link id o.now unit.action taskType)⟩ ::
            after }
  | write {before after : List Member} {unit : Job} {r : Record} (f : Trace.Scope.Write)
      (h : w.members = before ++ ⟨unit, some r⟩ :: after) :
      Step w { w with
        members := before ++ ⟨unit, some { r with scope := f.apply r.scope }⟩ :: after }
  | finish {before after : List Member} {unit : Job} {r : Record} (e : Ending) (o : Occasion)
      (h : w.members = before ++ ⟨unit, some r⟩ :: after) :
      Step w { w.updateTracker Tracker.leave with
        members := before ++ after
        finished := w.finished ++ [⟨unit, close o.masked o.trace o.now e r⟩] }
  | close : Step w (w.updateTracker Tracker.close)

end Workshop

/-! ## The record of a unit -/

/-- A record that was not emitted yet, of type task, with the action and the link of the unit. -/
structure Job.Records (unit : Job) (r : Record) : Prop where
  emitted : r.emitted = false
  actionType : r.actionType = taskType
  action : r.action = Record.childAction unit.link unit.action
  refId : r.refId = if unit.link.hasRoot then some unit.link.id else none

theorem Job.Records.write {unit : Job} {r : Record} (H : unit.Records r) (w : Trace.Scope.Write) :
    unit.Records { r with scope := w.apply r.scope } where
  emitted := H.emitted
  actionType := H.actionType
  action := (Trace.Scope.action_writeAll [w]).trans H.action
  refId := H.refId

/-- The unit has emitted one record of its own, and will emit no other. -/
def Finished.Emitted (f : Finished) : Prop :=
  ∃ masked last, f.job.Records last ∧ f.closed.emission = some ⟨last.line masked, last.outcome⟩ ∧
    f.closed.record.emitted = true

theorem emitted_close {unit : Job} {r : Record} (e : Ending) (o : Occasion) (H : unit.Records r) :
    Finished.Emitted ⟨unit, close o.masked o.trace o.now e r⟩ := by
  have keeps : r.Keeps (e.ended o.masked o.trace o.now r) := keeps_ended
  have records : unit.Records (e.ended o.masked o.trace o.now r) :=
    ⟨emitted_ended.trans H.emitted, keeps.actionType.trans H.actionType,
      keeps.action.trans H.action, keeps.refId.trans H.refId⟩
  refine ⟨o.masked, _, records, ?_, ?_⟩
  · rw [close_eq H.emitted]
  · rw [close_eq H.emitted]

/-! ## What is kept -/

namespace Workshop

structure Sound (w : Workshop π) : Prop where
  count : w.tracker.count = w.members.length
  numbers : w.joined.map Job.number = List.range w.joined.length
  /-- A unit that was joined has not ended, or has finished. -/
  once : (w.finished.map Finished.job ++ w.members.map Member.unit).Perm w.joined
  records : ∀ m ∈ w.members, ∀ r, m.record = some r → m.unit.Records r
  emitted : ∀ f ∈ w.finished, f.Emitted
  listed : ∀ i ∈ w.waiters.listed, i < w.waits.length
  waits : ∀ v ∈ w.waits, v.joined ≤ w.joined.length ∧ v.strangers ≤ w.strangers ∧
    v.ofJobs ≤ w.ofJobs
  /-- Who was let go in time has seen all units end that were joined before. -/
  waited : w.overdue = [] → ∀ (i : Nat) (v : Wait), w.waits[i]? = some v → i ∉ w.waiters.listed →
    ∀ m ∈ w.members, v.joined ≤ m.unit.number
  /-- If then only units have brought units, none is left. -/
  quiet : w.overdue = [] → ∀ (i : Nat) (v : Wait), w.waits[i]? = some v → i ∉ w.waiters.listed →
    w.strangers = v.strangers → w.ofJobs = v.ofJobs → w.members = []

variable {w w' : Workshop π}

theorem sound_start (pools : π → Executor) : Sound (start pools) where
  count := rfl
  numbers := rfl
  once := .nil
  records _ hm := absurd hm List.not_mem_nil
  emitted _ hf := absurd hf List.not_mem_nil
  listed _ hi := absurd hi List.not_mem_nil
  waits _ hv := absurd hv List.not_mem_nil
  waited _ _ _ _ _ _ hm := absurd hm List.not_mem_nil
  quiet _ _ _ _ _ _ _ := rfl

/-- Who is let go by a change of the tracker finds it drained. -/
theorem listed_updateTracker (f : Tracker → Tracker) (w : Workshop π) (i : Nat) :
    (i ∈ (w.updateTracker f).waiters.listed → i ∈ w.waiters.listed) ∧
      (i ∉ (w.updateTracker f).waiters.listed →
        i ∉ w.waiters.listed ∨ (f w.tracker).count = 0) := by
  unfold updateTracker Tracker.becomesDrained Tracker.isDrained
  split
  · next h =>
    simp only [Bool.and_eq_true, decide_eq_true_eq] at h
    exact ⟨fun hi => absurd hi List.not_mem_nil, fun _ => .inr h.2.2⟩
  · exact ⟨id, .inl⟩

theorem waiters_join (source : Source π) (link : Trace.Link) (action : String) (w : Workshop π) :
    (w.join source link action).waiters = w.waiters := by
  simp [join, updateTracker, Tracker.becomesDrained, Tracker.isDrained, Tracker.join]

/-- Units may leave while the tracker changes; who is let go by that finds that all have left. -/
theorem Sound.update (H : Sound w) (f : Tracker → Tracker) {members : List Member}
    {finished : List Finished} (hmem : ∀ m ∈ members, m ∈ w.members)
    (hcount : (f w.tracker).count = members.length)
    (honce : (finished.map Finished.job ++ members.map Member.unit).Perm w.joined)
    (hemitted : ∀ f ∈ finished, f.Emitted) :
    Sound { w.updateTracker f with members := members, finished := finished } where
  count := hcount
  numbers := H.numbers
  once := honce
  records m hm := H.records m (hmem m hm)
  emitted := hemitted
  listed i hi := H.listed i ((listed_updateTracker f w i).1 hi)
  waits := H.waits
  waited htime i v hv hi m hm := by
    rcases (listed_updateTracker f w i).2 hi with hi | hzero
    · exact H.waited htime i v hv hi m (hmem m hm)
    · rw [List.eq_nil_of_length_eq_zero (hcount.symm.trans hzero)] at hm
      cases hm
  quiet htime i v hv hi hs hj := by
    rcases (listed_updateTracker f w i).2 hi with hi | hzero
    · have hnil : w.members = [] := H.quiet htime i v hv hi hs hj
      exact List.eq_nil_iff_forall_not_mem.mpr fun m hm =>
        absurd (hnil ▸ hmem m hm) List.not_mem_nil
    · exact List.eq_nil_of_length_eq_zero (hcount.symm.trans hzero)

theorem Sound.setRecord {before after : List Member} {unit : Job} {record : Option Record}
    {r : Record} (H : Sound w) (h : w.members = before ++ ⟨unit, record⟩ :: after)
    (hr : unit.Records r) :
    Sound { w with members := before ++ ⟨unit, some r⟩ :: after } where
  count := by rw [H.count, h]; simp
  numbers := H.numbers
  once := by
    have once := H.once
    rw [h] at once
    simpa using once
  records m hm r' hr' := by
    rcases mem_between.mp hm with rfl | hm
    · cases hr'; exact hr
    · exact H.records m (h ▸ mem_between.mpr (.inr hm)) r' hr'
  emitted := H.emitted
  listed := H.listed
  waits := H.waits
  waited htime i v hv hi m hm := by
    rcases mem_between.mp hm with rfl | hm
    · exact H.waited htime i v hv hi ⟨unit, record⟩ (h ▸ mem_between.mpr (.inl rfl))
    · exact H.waited htime i v hv hi m (h ▸ mem_between.mpr (.inr hm))
  quiet htime i v hv hi hs hj := by
    have hnil := H.quiet htime i v hv hi hs hj
    rw [h] at hnil
    simp at hnil

theorem Sound.join {source : Source π} (H : Sound w) (h : w.CanBring source) (link : Trace.Link)
    (action : String) : Sound (w.join source link action) where
  count := by
    change w.tracker.count + 1 = (w.members ++ [_]).length
    rw [H.count, List.length_append, List.length_singleton]
  numbers := numbered_concat H.numbers rfl
  once := by
    simp only [Workshop.join, List.map_append, ← List.append_assoc]
    exact H.once.append_right _
  records m hm r hr := by
    rcases List.mem_append.mp hm with hm | hm
    · exact H.records m hm r hr
    · rw [List.mem_singleton.mp hm] at hr
      cases hr
  emitted := H.emitted
  listed := by rw [waiters_join]; exact H.listed
  waits v hv := by
    obtain ⟨hjoined, hstrangers, hofJobs⟩ := H.waits v hv
    refine ⟨?_, ?_, ?_⟩
    · exact Nat.le_trans hjoined (by simp [Workshop.join])
    · cases source <;> simp only [Workshop.join] <;> omega
    · cases source <;> simp only [Workshop.join] <;> omega
  waited htime i v hv hi m hm := by
    rw [waiters_join] at hi
    rcases List.mem_append.mp hm with hm | hm
    · exact H.waited htime i v hv hi m hm
    · rw [List.mem_singleton.mp hm]
      exact (H.waits v (List.mem_of_getElem? hv)).1
  quiet htime i v hv hi hs hj := by
    rw [waiters_join] at hi
    obtain ⟨-, hstrangers, hofJobs⟩ := H.waits v (List.mem_of_getElem? hv)
    -- of those who can bring a unit, a member is not there and the others are counted
    cases source with
    | unit => exact absurd (H.quiet htime i v hv hi hs hj) h
    | job p =>
      change w.ofJobs + 1 = v.ofJobs at hj
      omega
    | outside =>
      change w.strangers + 1 = v.strangers at hs
      omega

theorem Sound.close (H : Sound w) : Sound (w.updateTracker Tracker.close) :=
  H.update Tracker.close (fun _ hm => hm) H.count H.once H.emitted

theorem Sound.step [DecidableEq π] (H : Sound w) (h : Step w w') : Sound w' := by
  cases h with
  | pool => exact { H with }
  | join source link action h => exact H.join h link action
  | begin id o h => exact H.setRecord h ⟨rfl, rfl, rfl, rfl⟩
  | write f h =>
    have hrecords := H.records _ (h ▸ mem_between.mpr (.inl rfl)) _ rfl
    exact H.setRecord h (hrecords.write f)
  | @finish before after unit r e o h =>
    have hrecords := H.records ⟨unit, some r⟩ (h ▸ mem_between.mpr (.inl rfl)) r rfl
    refine H.update _ (fun m hm => h ▸ mem_between.mpr (.inr hm)) ?_ ?_ fun f hf => ?_
    · change w.tracker.count - 1 = _
      rw [H.count, h]
      simp only [List.length_append, List.length_cons]
      omega
    · refine .trans ?_ (h ▸ H.once)
      simp only [List.map_append, List.map_cons, List.map_nil, List.append_assoc,
        List.singleton_append]
      exact List.perm_middle.symm.append_left _
    · rcases List.mem_append.mp hf with hf | hf
      · exact H.emitted f hf
      · rw [List.mem_singleton.mp hf]
        exact emitted_close e o hrecords
  | close => exact H.close

/-- A wait that begins is listed, so that nothing is said of it yet. -/
theorem Sound.await (H : Sound w) : Sound w.await := by
  have H : Sound (w.updateTracker Tracker.close) := H.close
  have hold : ∀ {i v}, w.await.waits[i]? = some v → i ∉ w.await.waiters.listed →
      w.waits[i]? = some v ∧ i ∉ (w.updateTracker Tracker.close).waiters.listed := by
    intro i v hv hi
    obtain ⟨hi, hne⟩ := not_or.mp (Waiters.mem_enlist.not.mp hi)
    have hlt : i < w.waits.length := by
      have hlt := (List.getElem?_eq_some_iff.mp hv).1
      simp only [Workshop.await, List.length_append, List.length_singleton] at hlt
      exact Nat.lt_of_le_of_ne (Nat.le_of_lt_succ hlt) hne
    exact ⟨(List.getElem?_append_left hlt).symm.trans hv, hi⟩
  exact { H with
    listed := fun i hi => by
      simp only [Workshop.await, List.length_append, List.length_singleton]
      rcases Waiters.mem_enlist.mp hi with hi | rfl
      · exact Nat.lt_succ_of_lt (H.listed i hi)
      · exact Nat.lt_succ_self _
    waits := fun v hv => by
      rcases List.mem_append.mp hv with hv | hv
      · exact H.waits v hv
      · rw [List.mem_singleton.mp hv]
        exact ⟨Nat.le_refl _, Nat.le_refl _, Nat.le_refl _⟩
    waited := fun htime i v hv hi => H.waited htime i v (hold hv hi).1 (hold hv hi).2
    quiet := fun htime i v hv hi => H.quiet htime i v (hold hv hi).1 (hold hv hi).2 }

theorem not_listed_strike (i : Nat) (w : Workshop π) : i ∉ (w.strike i).waiters.listed := by
  simp [strike, Waiters.strike]

/-- A waiter may leave that was let go, that finds the tracker drained, or that says otherwise. -/
theorem Sound.strike {i : Nat} (H : Sound w)
    (h : w.overdue ≠ [] ∨ w.tracker.isDrained = true ∨ i ∉ w.waiters.listed) :
    Sound (w.strike i) := by
  have hold : ∀ {j}, w.overdue = [] → j ∉ (w.strike i).waiters.listed →
      j ∉ w.waiters.listed ∨ w.members = [] := by
    intro j htime hj
    by_cases heq : j = i
    · rcases h with h | h | h
      · exact absurd htime h
      · simp only [Tracker.isDrained, Bool.and_eq_true, decide_eq_true_eq] at h
        exact .inr (List.eq_nil_of_length_eq_zero (H.count.symm.trans h.2))
      · exact .inl (heq ▸ h)
    · refine .inl fun hj' => hj (List.mem_filter.mpr ⟨hj', ?_⟩)
      simpa using heq
  exact { H with
    listed := fun j hj => H.listed j (List.mem_filter.mp hj).1
    waited := fun htime j v hv hj m hm => by
      rcases hold htime hj with hj | hnil
      · exact H.waited htime j v hv hj m hm
      · exact absurd (hnil ▸ hm) List.not_mem_nil
    quiet := fun htime j v hv hj hs hofJobs => by
      rcases hold htime hj with hj | hnil
      · exact H.quiet htime j v hv hj hs hofJobs
      · exact hnil }

theorem overdue_warn (notice : String × List (String × String)) (w : Workshop π) :
    (w.warn notice).overdue ≠ [] :=
  List.concat_ne_nil _ _

theorem Sound.warn (H : Sound w) (notice : String × List (String × String)) :
    Sound (w.warn notice) where
  count := H.count
  numbers := H.numbers
  once := H.once
  records := H.records
  emitted := H.emitted
  listed := H.listed
  waits := H.waits
  waited htime := absurd htime (overdue_warn notice w)
  quiet htime := absurd htime (overdue_warn notice w)

theorem Sound.number_lt (H : Sound w) {unit : Job} (hunit : unit ∈ w.joined) :
    unit.number < w.joined.length :=
  lt_of_numbered H.numbers hunit

/-- A unit that has left the tracker has finished. -/
theorem Sound.finished_of_lt (H : Sound w) {n : Nat} (hn : ∀ m ∈ w.members, n ≤ m.unit.number)
    {unit : Job} (hunit : unit ∈ w.joined) (hlt : unit.number < n) :
    ∃ f ∈ w.finished, f.job = unit ∧ f.Emitted := by
  rcases List.mem_append.mp (H.once.mem_iff.mpr hunit) with hmem | hmem
  · obtain ⟨f, hf, rfl⟩ := List.mem_map.mp hmem
    exact ⟨f, hf, rfl, H.emitted f hf⟩
  · obtain ⟨m, hm, rfl⟩ := List.mem_map.mp hmem
    exact absurd hlt (Nat.not_lt.mpr (hn m hm))

/-! ## What only grows -/

/-- What every change of a workshop leaves as it was, or adds to. -/
structure Onward (w w' : Workshop π) : Prop where
  pools : ∀ p, ∃ n, Executor.Run n (w.pools p) (w'.pools p)
  joined : w.joined <+: w'.joined
  strangers : w.strangers ≤ w'.strangers
  /-- Jobs bring units only while there are workers. -/
  ofJobs : (∀ p, Executor.AllLeft (w.pools p)) → w'.ofJobs = w.ofJobs
  overdue : w.overdue <+: w'.overdue
  waits : w.waits <+: w'.waits
  /-- Who was let go is not listed again. -/
  listed : ∀ i < w.waits.length, i ∉ w.waiters.listed → i ∉ w'.waiters.listed

theorem Onward.refl (w : Workshop π) : Onward w w where
  pools _ := ⟨0, .refl⟩
  joined := List.prefix_refl _
  strangers := Nat.le_refl _
  ofJobs _ := rfl
  overdue := List.prefix_refl _
  waits := List.prefix_refl _
  listed _ _ hi := hi

theorem Onward.allLeft (h : Onward w w') {p : π} (hleft : Executor.AllLeft (w.pools p)) :
    Executor.AllLeft (w'.pools p) := by
  obtain ⟨n, hn⟩ := h.pools p
  exact Executor.allLeft_run hn hleft

theorem Onward.in_time (h : Onward w w') (htime : w'.overdue = []) : w.overdue = [] :=
  List.prefix_nil.mp (htime ▸ h.overdue)

theorem Onward.wait (h : Onward w w') {i : Nat} {v : Wait} (hv : w.waits[i]? = some v) :
    w'.waits[i]? = some v := by
  obtain ⟨later, hlater⟩ := h.waits
  rw [← hlater, List.getElem?_append_left (List.getElem?_eq_some_iff.mp hv).1, hv]

theorem Onward.trans {w'' : Workshop π} (h : Onward w w') (h' : Onward w' w'') : Onward w w'' where
  pools p := by
    obtain ⟨m, hm⟩ := h.pools p
    obtain ⟨n, hn⟩ := h'.pools p
    exact ⟨m + n, hm.trans hn⟩
  joined := h.joined.trans h'.joined
  strangers := Nat.le_trans h.strangers h'.strangers
  ofJobs hleft := by
    rw [h'.ofJobs fun p => h.allLeft (hleft p), h.ofJobs hleft]
  overdue := h.overdue.trans h'.overdue
  waits := h.waits.trans h'.waits
  listed i hlt hi :=
    h'.listed i (Nat.lt_of_lt_of_le hlt h.waits.length_le) (h.listed i hlt hi)

theorem onward_updateTracker (f : Tracker → Tracker) (w : Workshop π) :
    Onward w (w.updateTracker f) :=
  { Onward.refl w with listed := fun i _ hi hi' => hi ((listed_updateTracker f w i).1 hi') }

theorem onward_setPool [DecidableEq π] {p : π} {e : Executor} {n : Nat}
    (h : Executor.Run n (w.pools p) e) : Onward w (w.setPool p e) :=
  { Onward.refl w with
    pools := fun q => by
      by_cases hq : q = p
      · subst hq
        exact ⟨n, by rwa [setPool_self]⟩
      · exact ⟨0, by rw [setPool_of_ne hq]; exact .refl⟩ }

theorem Step.onward [DecidableEq π] (h : Step w w') : Onward w w' := by
  cases h with
  | pool p h =>
    rcases h with h | h
    · exact onward_setPool (.advance .refl h)
    · exact onward_setPool (.other .refl h)
  | join source link action h =>
    exact { Onward.refl w with
      joined := List.prefix_append ..
      strangers := by cases source <;> simp [Workshop.join]
      ofJobs := fun hleft => by
        cases source with
        | unit | outside => rfl
        | job p => exact absurd (hleft p).busy h
      listed := fun i _ hi => by rwa [waiters_join] }
  | begin | write => exact { Onward.refl w with }
  | finish => exact { onward_updateTracker Tracker.leave w with }
  | close => exact onward_updateTracker Tracker.close w

theorem onward_await (w : Workshop π) : Onward w w.await :=
  { onward_updateTracker Tracker.close w with
    waits := List.prefix_append ..
    listed := fun i hlt hi hi' => by
      rcases Waiters.mem_enlist.mp hi' with hi' | rfl
      · exact hi ((listed_updateTracker Tracker.close w i).1 hi')
      · exact Nat.lt_irrefl _ hlt }

theorem onward_strike (i : Nat) (w : Workshop π) : Onward w (w.strike i) :=
  { Onward.refl w with listed := fun _ _ hi hi' => hi (List.mem_filter.mp hi').1 }

theorem onward_warn (notice : String × List (String × String)) (w : Workshop π) :
    Onward w (w.warn notice) :=
  { Onward.refl w with overdue := List.prefix_append .. }

end Workshop

end Logbook.Work
