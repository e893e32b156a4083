import Logbook.Proofs.Work.Traffic

/-! Calm runs of a pool on several threads: no publication is overtaken by one that began later, and
nobody else sets the gauges of the pool. Whoever changed a counter begins to tell of it afterwards,
so the publication that began last tells the load, and what it has set stays (`Current.goesOn`).
Once it has ended the gauges show the load. -/

namespace Logbook.Work

/-! ## Turns -/

namespace Board

variable {b b' : Board}

/-- A gauge is set by a publication after one that began later has set it. -/
def Overtaken (b b' : Board) : Prop :=
  ∃ turn later gauge, b'.written = b.written ++ [(turn, gauge)] ∧ (later, gauge) ∈ b.written ∧
    turn < later

/-- The publication of this turn has set the gauge, which still shows its number. Before the first
turn all gauges were set. -/
structure Tells (turn : Nat) (gauge : Metrics.Key × Nat) (b : Board) : Prop where
  written : turn = 0 ∨ (turn, gauge.1) ∈ b.written
  shows : b.metrics.gauge? gauge.1 = some gauge.2.toUInt64.toFloat

theorem not_overtaken (h : b'.written = b.written) : ¬b.Overtaken b' := by
  rintro ⟨turn, later, gauge, hwritten, -⟩
  have hlength := congrArg List.length (h.symm.trans hwritten)
  rw [List.length_append, List.length_singleton] at hlength
  omega

theorem tells_set (turn : Nat) (gauge : Metrics.Key × Nat) (b : Board) :
    (b.set turn gauge).Tells turn gauge where
  written := .inr (List.mem_append_right _ (.head _))
  shows := Metrics.gauge?_setGauge_self ..

theorem Tells.set_of_ne {turn last : Nat} {gauge other : Metrics.Key × Nat}
    (H : b.Tells last other) (hne : other.1 ≠ gauge.1) : (b.set turn gauge).Tells last other where
  written := H.written.imp_right (List.mem_append_left _)
  shows := (Metrics.gauge?_setGauge_of_ne hne ..).trans H.shows

/-- What a later publication has set stays, if it does not overtake. -/
theorem Tells.set_of_not_overtaken {turn last : Nat} {gauge other : Metrics.Key × Nat}
    (H : b.Tells last other) (hpos : 0 < turn) (hlt : turn < last)
    (hcalm : ¬b.Overtaken (b.set turn gauge)) : (b.set turn gauge).Tells last other := by
  refine H.set_of_ne fun hkey => ?_
  rcases H.written with hzero | hwritten
  · omega
  · exact hcalm ⟨turn, last, gauge.1, rfl, hkey ▸ hwritten, hlt⟩

/-- A publication sets the first of the gauges that it has left to set. -/
theorem tells_set_of_left {turn : Nat} {pool : String} {load : Load}
    {gauge other : Metrics.Key × Nat} {todo : List (Metrics.Key × Nat)}
    (hgauge : gauge ∈ Metrics.loadGauges pool load) (hother : other ∈ Metrics.loadGauges pool load)
    (h : other ∈ gauge :: todo ∨ b.Tells turn other) :
    other ∈ todo ∨ (b.set turn gauge).Tells turn other := by
  by_cases hkey : other.1 = gauge.1
  · obtain rfl := Metrics.eq_of_mem_loadGauges hother hgauge hkey
    exact .inr (tells_set ..)
  · refine h.imp (fun hmem => ?_) fun H => H.set_of_ne hkey
    exact (List.mem_cons.mp hmem).resolve_left fun heq => hkey (congrArg _ heq)

end Board

namespace Telling

def turn? : Telling → Option Nat
  | due => none
  | half turn _ | sets turn _ => some turn

/-- The gauges that a publication has left to set. -/
def left {α : Type} (p : Pool α) : Telling → List (Metrics.Key × Nat)
  | due => []
  | half _ running => Metrics.loadGauges p.name ⟨running, p.size - running, p.waiting⟩
  | sets _ todo => todo

end Telling

namespace Traffic

variable {α : Type} {name : String} {size : Nat} {m : Metrics} {s t : Traffic α}
variable {before after : List (Worker α)} {w w' : Worker α}

/-- The turns of the publications under way. -/
def turns (s : Traffic α) : List Nat := s.tellings.filterMap Telling.turn?

structure Ordered (s : Traffic α) : Prop where
  nodup : s.turns.Nodup
  begun : ∀ turn ∈ s.turns, 0 < turn ∧ turn ≤ s.board.begun
  written : ∀ entry ∈ s.board.written, entry.1 ≤ s.board.begun

theorem Ordered.keep (H : s.Ordered) (hturns : t.turns.Sublist s.turns)
    (hboard : t.board = s.board) : t.Ordered where
  nodup := H.nodup.sublist hturns
  begun turn hturn := hboard ▸ H.begun turn (hturns.subset hturn)
  written := hboard ▸ H.written

/-- Somebody's publication goes on by a part. -/
structure GoesOn (s t : Traffic α) (ahead behind : List Telling) (told : Telling)
    (next : Option Telling) : Prop where
  before : s.tellings = ahead ++ told :: behind
  after : t.tellings = ahead ++ (next.toList ++ behind)
  part : told.Part s.pool s.board t.board next
  pool : t.pool = s.pool
  sending : t.sending = s.sending
  lowered : (∀ w ∈ t.workers, w.place.isLowered = false) →
    ∀ w ∈ s.workers, w.place.isLowered = false

theorem tellings_split {telling : Option Telling} (h : s.workers = before ++ w :: after)
    (htelling : w.telling = telling) :
    s.tellings = (s.telling.toList ++ before.filterMap (·.telling)) ++
      (telling.toList ++ after.filterMap (·.telling)) := by
  rw [tellings, h, List.filterMap_append, List.filterMap_cons, htelling, List.append_assoc]
  cases telling <;> rfl

theorem turns_of_split (ahead behind : List Telling) (told : Option Telling) :
    (ahead ++ (told.toList ++ behind)).filterMap Telling.turn? =
      ahead.filterMap Telling.turn? ++
        ((told.bind Telling.turn?).toList ++ behind.filterMap Telling.turn?) := by
  rw [List.filterMap_append, List.filterMap_append]
  cases told with
  | none => rfl
  | some told =>
    rw [Option.toList_some, List.filterMap_cons, Option.bind_some]
    cases told.turn? <;> rfl

theorem goesOn_told {told : Telling} {b : Board} {next : Option Telling}
    (h : s.telling = some told) (hpart : told.Part s.pool s.board b next) :
    s.GoesOn { s with board := b, telling := next } [] (s.workers.filterMap (·.telling)) told
      next where
  before := by
    rw [tellings, h]
    rfl
  after := rfl
  part := hpart
  pool := rfl
  sending := rfl
  lowered := id

theorem goesOn_tells {place : Place α} {told : Telling} {b : Board} {next : Option Telling}
    (h : s.workers = before ++ ⟨place, some told⟩ :: after)
    (hpart : told.Part s.pool s.board b next) :
    s.GoesOn { s with board := b, workers := before ++ ⟨place, next⟩ :: after }
      (s.telling.toList ++ before.filterMap (·.telling)) (after.filterMap (·.telling)) told
      next where
  before := tellings_split h rfl
  after := tellings_split rfl rfl
  part := hpart
  pool := rfl
  sending := rfl
  lowered hlowered v hv := by
    rcases mem_between.mp (h ▸ hv) with rfl | hv
    · exact hlowered ⟨place, next⟩ (mem_between.mpr (.inl rfl))
    · exact hlowered v (mem_between.mpr (.inr hv))

section GoesOn

variable {ahead behind : List Telling} {told : Telling} {next : Option Telling}

theorem GoesOn.turns_before (h : s.GoesOn t ahead behind told next) : s.turns =
    ahead.filterMap Telling.turn? ++ (told.turn?.toList ++ behind.filterMap Telling.turn?) := by
  rw [turns, h.before]
  exact turns_of_split ahead behind (some told)

theorem GoesOn.turns_after (h : s.GoesOn t ahead behind told next) : t.turns =
    ahead.filterMap Telling.turn? ++
      ((next.bind Telling.turn?).toList ++ behind.filterMap Telling.turn?) := by
  rw [turns, h.after]
  exact turns_of_split ahead behind next

theorem GoesOn.turn_mem (h : s.GoesOn t ahead behind told next) {turn : Nat}
    (hturn : told.turn? = some turn) : turn ∈ s.turns := by
  rw [h.turns_before, hturn]
  exact List.mem_append_right _ (.head _)

theorem GoesOn.next_mem {told' : Telling} (h : s.GoesOn t ahead behind told (some told')) :
    told' ∈ t.tellings := by
  rw [h.after]
  exact List.mem_append_right _ (.head _)

/-- Nobody else has this turn. -/
theorem GoesOn.turn_not_mem (h : s.GoesOn t ahead behind told next) (H : s.Ordered) {turn : Nat}
    (hturn : told.turn? = some turn) :
    turn ∉ ahead.filterMap Telling.turn? ++ behind.filterMap Telling.turn? := by
  have hnodup := H.nodup
  rw [h.turns_before, hturn] at hnodup
  exact (List.nodup_cons.mp (List.nodup_middle.mp hnodup)).1

/-- The turns stay in order, as a publication that begins gets one of its own. -/
theorem GoesOn.ordered (h : s.GoesOn t ahead behind told next) (H : s.Ordered) : t.Ordered := by
  have hbefore := h.turns_before
  have hafter := h.turns_after
  have hpart := h.part
  generalize hb : t.board = b at hpart
  cases hpart with
  | begins =>
    have hturns : t.turns.Perm ((s.board.begun + 1) :: s.turns) := by
      rw [hafter, hbefore]
      exact List.perm_middle
    refine ⟨hturns.nodup_iff.mpr (List.nodup_cons.mpr ⟨fun hmem => ?_, H.nodup⟩),
      fun turn hturn => ?_, fun entry hentry => ?_⟩
    · exact absurd (H.begun _ hmem).2 (by omega)
    · rw [hb]
      rcases List.mem_cons.mp (hturns.mem_iff.mp hturn) with rfl | hturn
      · exact ⟨Nat.succ_pos _, Nat.le_refl _⟩
      · exact ⟨(H.begun turn hturn).1, Nat.le_succ_of_le (H.begun turn hturn).2⟩
    · rw [hb] at hentry ⊢
      exact Nat.le_succ_of_le (H.written entry hentry)
  | reads => exact H.keep (hafter.trans hbefore.symm ▸ List.Sublist.refl _) hb
  | @sets turn gauge todo =>
    have hturns : t.turns = s.turns := hafter.trans hbefore.symm
    refine ⟨hturns ▸ H.nodup, fun other hother => ?_, fun entry hentry => ?_⟩
    · rw [hb]
      exact H.begun other (hturns ▸ hother)
    · rw [hb] at hentry ⊢
      rcases List.mem_append.mp hentry with hentry | hentry
      · exact H.written entry hentry
      · rw [List.mem_singleton.mp hentry]
        exact (H.begun turn (h.turn_mem rfl)).2
  | ends =>
    refine H.keep ?_ hb
    rw [hbefore, hafter]
    exact (List.sublist_append_right ..).append_left _

end GoesOn

/-- A worker that has nothing to tell goes on. It may have to tell something then, but has not
begun. -/
theorem turns_replace {telling : Option Telling} {place place' : Place α}
    (h : s.workers = before ++ ⟨place, none⟩ :: after)
    (ht : t.workers = before ++ ⟨place', telling⟩ :: after) (htelling : t.telling = s.telling)
    (hdue : telling.bind Telling.turn? = none) : t.turns.Sublist s.turns := by
  rw [turns, turns, tellings_split h rfl, tellings_split ht rfl, htelling, turns_of_split,
    turns_of_split, hdue]
  exact .refl _

/-- A move is a part of a publication, or leaves the gauges and their turns alone. -/
theorem Move.cases_board (h : s.Move t) : (t.board = s.board ∧ t.turns.Sublist s.turns) ∨
    ∃ ahead behind told next, s.GoesOn t ahead behind told next := by
  cases h with
  | raises | unsent | closes => exact .inl ⟨rfl, .refl _⟩
  | sends =>
    refine .inl ⟨rfl, ?_⟩
    rw [turns, turns, tellings, tellings, List.filterMap_append, List.filterMap_append]
    exact List.sublist_append_right ..
  | receives h | lowers h | engages h | ends h | finishes h | leaves h =>
    exact .inl ⟨rfl, turns_replace h rfl rfl rfl⟩
  | told h hpart => exact .inr ⟨_, _, _, _, goesOn_told h hpart⟩
  | tells h hpart => exact .inr ⟨_, _, _, _, goesOn_tells h hpart⟩

theorem Ordered.move (H : s.Ordered) (h : s.Move t) : t.Ordered := by
  rcases h.cases_board with ⟨hboard, hturns⟩ | ⟨_, _, _, _, h⟩
  · exact H.keep hturns hboard
  · exact h.ordered H

theorem tellings_start : (start name size m : Traffic α).tellings = [] := by
  refine List.filterMap_eq_nil_iff.mpr fun w hw => ?_
  rw [List.eq_of_mem_replicate hw]

theorem ordered_of_reachable (h : Reachable name size m s) : s.Ordered := by
  induction h with
  | refl =>
    have hturns : (start name size m : Traffic α).turns = [] := by
      rw [turns, tellings_start]
      rfl
    exact ⟨hturns ▸ List.nodup_nil, hturns ▸ nofun, nofun⟩
  | tail _ h ih =>
    cases h with
    | move h => exact ih.move h
    | elsewhere => exact { ih with }

/-! ## Gauges -/

/-- Whoever has changed a counter has begun to tell of it. -/
structure Reported (s : Traffic α) : Prop where
  sending : s.sending = none
  lowered : ∀ w ∈ s.workers, w.place.isLowered = false
  due : .due ∉ s.tellings

/-- The gauges that the publication that began last has left to set; none if it has ended. -/
inductive Left (s : Traffic α) : List (Metrics.Key × Nat) → Prop where
  | underway {told : Telling} (h : told ∈ s.tellings) (hturn : told.turn? = some s.board.begun) :
      Left s (told.left s.pool)
  | ended (h : s.board.begun ∉ s.turns) : Left s []

/-- If every change is reported, the publication that began last tells the load, and what it has set
stays. -/
def Current (s : Traffic α) : Prop :=
  s.Reported → ∃ left, s.Left left ∧
    (∀ gauge ∈ left, gauge ∈ Metrics.loadGauges s.pool.name s.pool.load) ∧
    ∀ gauge ∈ Metrics.loadGauges s.pool.name s.pool.load,
      gauge ∈ left ∨ s.board.Tells s.board.begun gauge

/-- What changes no counter, tells nothing and leaves the gauges alone. -/
theorem Current.keep (H : s.Current) (hreported : t.Reported → s.Reported)
    (htellings : t.tellings = s.tellings)
    (hpool : t.pool.name = s.pool.name ∧ t.pool.size = s.pool.size ∧ t.pool.load = s.pool.load)
    (hbegun : t.board.begun = s.board.begun) (hwritten : t.board.written = s.board.written)
    (hsame : s.board.metrics.SameGauges s.pool.name t.board.metrics) : t.Current := by
  intro h
  obtain ⟨left, hleft, hload, htells⟩ := H (hreported h)
  rw [hpool.1, hpool.2.2]
  refine ⟨left, ?_, hload, fun gauge hgauge => (htells gauge hgauge).imp_right fun h => ?_⟩
  · cases hleft with
    | @underway told hmem hturn =>
      have hlefts : told.left s.pool = told.left t.pool := by
        cases told with
        | due | sets => rfl
        | half turn running =>
          rw [Telling.left, Telling.left, hpool.1, hpool.2.1]
          have hwaiting := congrArg Load.waiting hpool.2.2
          exact congrArg (Metrics.loadGauges _ ⟨running, _, ·⟩) hwaiting.symm
      rw [hlefts]
      exact .underway (htellings ▸ hmem) (hbegun ▸ hturn)
    | ended h => exact .ended (by rwa [turns, htellings, hbegun])
  · rw [hbegun]
    exact ⟨hwritten ▸ h.written, (hsame.gauge? hgauge).trans h.shows⟩

section GoesOn

variable {ahead behind : List Telling} {told : Telling} {next : Option Telling}

theorem GoesOn.reported (h : s.GoesOn t ahead behind told next) (hdue : told ≠ .due)
    (H : t.Reported) : s.Reported where
  sending := h.sending ▸ H.sending
  lowered := h.lowered H.lowered
  due hmem := by
    rw [h.before] at hmem
    refine H.due (h.after ▸ ?_)
    refine (List.mem_append.mp hmem).elim (List.mem_append_left _) fun hmem => ?_
    rcases List.mem_cons.mp hmem with heq | hmem
    · exact absurd heq.symm hdue
    · exact List.mem_append_right _ (List.mem_append_right _ hmem)

/-- Only one publication has the last turn. -/
theorem GoesOn.left_eq (h : s.GoesOn t ahead behind told next) (H : s.Ordered)
    (hlast : told.turn? = some s.board.begun) {left : List (Metrics.Key × Nat)}
    (hleft : s.Left left) : left = told.left s.pool := by
  have hothers := h.turn_not_mem H hlast
  cases hleft with
  | @underway other hmem hturn =>
    rw [h.before] at hmem
    have hmem_turn {l : List Telling} (hmem : other ∈ l) :
        s.board.begun ∈ l.filterMap Telling.turn? := List.mem_filterMap.mpr ⟨other, hmem, hturn⟩
    rcases List.mem_append.mp hmem with hmem | hmem
    · exact absurd (List.mem_append_left _ (hmem_turn hmem)) hothers
    · rcases List.mem_cons.mp hmem with rfl | hmem
      · rfl
      · exact absurd (List.mem_append_right _ (hmem_turn hmem)) hothers
  | ended hnone => exact absurd (h.turn_mem hlast) hnone

/-- What the last publication has left to set does not depend on the others. -/
theorem GoesOn.left_of_ne (h : s.GoesOn t ahead behind told next)
    (hlast : told.turn? ≠ some s.board.begun) (hnext : next.bind Telling.turn? = none ∨
      next.bind Telling.turn? = told.turn?) (hbegun : t.board.begun = s.board.begun)
    {left : List (Metrics.Key × Nat)} (hleft : s.Left left) : t.Left left := by
  cases hleft with
  | @underway other hmem hturn =>
    rw [← h.pool]
    refine .underway ?_ (hbegun ▸ hturn)
    rw [h.before] at hmem
    rw [h.after]
    rcases List.mem_append.mp hmem with hmem | hmem
    · exact List.mem_append_left _ hmem
    · rcases List.mem_cons.mp hmem with rfl | hmem
      · exact absurd hturn hlast
      · exact List.mem_append_right _ (List.mem_append_right _ hmem)
  | ended hnone =>
    refine .ended fun hmem => hnone ?_
    rw [hbegun, h.turns_after] at hmem
    rw [h.turns_before]
    refine (List.mem_append.mp hmem).elim (List.mem_append_left _) fun hmem => ?_
    refine (List.mem_append.mp hmem).elim (fun hmem => ?_)
      fun hmem => List.mem_append_right _ (List.mem_append_right _ hmem)
    rcases hnext with hnext | hnext
    · rw [hnext] at hmem
      cases hmem
    · rw [hnext] at hmem
      exact List.mem_append_right _ (List.mem_append_left _ hmem)

theorem Current.goesOn (H : s.Current) (hordered : s.Ordered)
    (h : s.GoesOn t ahead behind told next) (hcalm : ¬s.board.Overtaken t.board) : t.Current := by
  have hpart := h.part
  generalize hb : t.board = b at hpart hcalm
  intro hreported
  rw [h.pool]
  have hbefore (hdue : told ≠ .due) := H (h.reported hdue hreported)
  cases hpart with
  | begins =>
    refine ⟨_, .underway h.next_mem (hb ▸ rfl), ?_, ?_⟩
    · rw [h.pool]
      exact fun gauge => id
    · rw [h.pool]
      exact fun gauge => .inl
  | @reads turn running =>
    obtain ⟨left, hleft, hload, htells⟩ := hbefore nofun
    rw [hb]
    refine ⟨left, ?_, hload, htells⟩
    by_cases hlast : turn = s.board.begun
    · rw [h.left_eq hordered (congrArg some hlast) hleft]
      exact .underway h.next_mem (hb ▸ congrArg some hlast)
    · exact h.left_of_ne (fun heq => hlast (Option.some.inj heq)) (.inr rfl) (congrArg _ hb) hleft
  | @sets turn gauge todo =>
    obtain ⟨left, hleft, hload, htells⟩ := hbefore nofun
    rw [hb]
    by_cases hlast : turn = s.board.begun
    · obtain rfl : left = gauge :: todo := h.left_eq hordered (congrArg some hlast) hleft
      refine ⟨todo, .underway h.next_mem (hb ▸ congrArg some hlast),
        fun other hother => hload other (.tail _ hother), fun other hother => ?_⟩
      subst hlast
      exact Board.tells_set_of_left (hload gauge (.head _)) hother (htells other hother)
    · -- what the last publication has set stays, as it began later
      obtain ⟨hpos, hle⟩ := hordered.begun turn (h.turn_mem rfl)
      refine ⟨left, h.left_of_ne (fun heq => hlast (Option.some.inj heq)) (.inr rfl)
        (by rw [hb]; rfl) hleft, hload, fun other hother => ?_⟩
      exact (htells other hother).imp_right fun H => H.set_of_not_overtaken hpos (by omega) hcalm
  | @ends turn =>
    obtain ⟨left, hleft, hload, htells⟩ := hbefore nofun
    rw [hb]
    refine ⟨left, ?_, hload, htells⟩
    by_cases hlast : turn = s.board.begun
    · obtain rfl : left = [] := h.left_eq hordered (congrArg some hlast) hleft
      refine .ended fun hmem => ?_
      rw [h.turns_after, hb] at hmem
      exact h.turn_not_mem hordered (congrArg some hlast) hmem
    · exact h.left_of_ne (fun heq => hlast (Option.some.inj heq)) (.inl rfl) (congrArg _ hb) hleft

end GoesOn

/-- A worker without anything to tell changes its place and no counter. -/
theorem Current.replace (H : s.Current) {place place' : Place α}
    (h : s.workers = before ++ ⟨place, none⟩ :: after)
    (ht : t.workers = before ++ ⟨place', none⟩ :: after) (hsending : t.sending = s.sending)
    (htelling : t.telling = s.telling)
    (hpool : t.pool.name = s.pool.name ∧ t.pool.size = s.pool.size ∧ t.pool.load = s.pool.load)
    (hboard : t.board = s.board) (hlowered : place.isLowered = false) : t.Current := by
  have htellings : t.tellings = s.tellings := by
    rw [tellings_split h rfl, tellings_split ht rfl, htelling]
  refine H.keep (fun H => ⟨hsending ▸ H.sending, fun v hv => ?_, htellings ▸ H.due⟩) htellings
    hpool (congrArg _ hboard) (congrArg _ hboard) fun _ => by rw [hboard]
  rcases mem_between.mp (h ▸ hv) with rfl | hv
  · exact hlowered
  · exact H.lowered v (ht ▸ mem_between.mpr (.inr hv))

theorem not_reported_of_due (h : .due ∈ t.tellings) : ¬t.Reported := fun H => H.due h

/-- A worker that has lowered the one counter has not yet raised the other one. -/
theorem not_reported_of_lowered (ht : t.workers = before ++ w :: after)
    (hlowered : w.place.isLowered = true) : ¬t.Reported := fun H => by
  cases hlowered.symm.trans (H.lowered w (ht ▸ mem_between.mpr (.inl rfl)))

theorem due_mem_tellings (ht : t.workers = before ++ w :: after) (hdue : w.telling = some .due) :
    .due ∈ t.tellings := by
  rw [tellings_split ht hdue]
  exact List.mem_append_right _ (.head _)

theorem Current.move (H : s.Current) (hcounted : s.Counted name size) (hordered : s.Ordered)
    (h : s.Move t) (hcalm : ¬s.board.Overtaken t.board) : t.Current := by
  cases h with
  | raises job => exact fun H => nomatch H.sending
  | sends => exact fun H => absurd H (not_reported_of_due (.head _))
  | unsent hsending hleft =>
    obtain ⟨w, hw, hpresent⟩ := hcounted.exists_present (hsending ▸ Option.some_ne_none _)
    cases hpresent.symm.trans (hleft w hw)
  | closes =>
    exact H.keep (fun H => ⟨H.sending, H.lowered, H.due⟩) rfl ⟨rfl, rfl, rfl⟩ rfl rfl fun _ => rfl
  | receives h hreceive =>
    obtain ⟨queue, -, rfl⟩ := Pool.receive?_eq_some hreceive
    exact H.replace h rfl rfl rfl ⟨rfl, rfl, rfl⟩ rfl rfl
  | ends h | leaves h => exact H.replace h rfl rfl rfl ⟨rfl, rfl, rfl⟩ rfl rfl
  | lowers => exact fun H => absurd H (not_reported_of_lowered rfl rfl)
  | engages | finishes =>
    exact fun H => absurd H (not_reported_of_due (due_mem_tellings rfl rfl))
  | told h hpart => exact H.goesOn hordered (goesOn_told h hpart) hcalm
  | tells h hpart => exact H.goesOn hordered (goesOn_tells h hpart) hcalm

/-! ## Calm runs -/

/-- A step in which no publication turns out to be overtaken and nobody else sets the gauges of the
pool. -/
inductive Calm (s : Traffic α) : Traffic α → Prop where
  | move {t : Traffic α} (h : s.Move t) (hcalm : ¬s.board.Overtaken t.board) : Calm s t
  | elsewhere {m : Metrics} (h : s.board.metrics.SameGauges s.pool.name m) :
      Calm s { s with board := { s.board with metrics := m } }

theorem reachable_of_calm (h : Relation.ReflTransGen Calm (start name size m) s) :
    Reachable name size m s := by
  refine Relation.ReflTransGen.mono (fun s t h => ?_) _ _ h
  cases h with
  | move h => exact .move h
  | elsewhere => exact .elsewhere _

/-- What calm steps keep. -/
structure Steady (name : String) (size : Nat) (s : Traffic α) : Prop where
  counted : s.Counted name size
  ordered : s.Ordered
  current : s.Current

theorem Steady.step (H : s.Steady name size) (h : s.Calm t) : t.Steady name size := by
  cases h with
  | move h hcalm =>
    exact ⟨H.counted.step h, H.ordered.move h, H.current.move H.counted H.ordered h hcalm⟩
  | elsewhere h =>
    exact ⟨{ H.counted with }, { H.ordered with },
      H.current.keep (fun H => ⟨H.sending, H.lowered, H.due⟩) rfl ⟨rfl, rfl, rfl⟩ rfl rfl h⟩

theorem Steady.run (H : s.Steady name size) (h : Relation.ReflTransGen Calm s t) :
    t.Steady name size := by
  induction h with
  | refl => exact H
  | tail _ h ih => exact ih.step h

theorem steady_start : (start name size m : Traffic α).Steady name size where
  counted := counted_start
  ordered := ordered_of_reachable .refl
  current _ := by
    refine ⟨[], .ended ?_, nofun, fun gauge hgauge => .inr ⟨.inl rfl, ?_⟩⟩
    · rw [turns, tellings_start]
      exact List.not_mem_nil
    · exact Metrics.shows_iff.mp (Metrics.shows_recordLoad ..) gauge hgauge

/-- Where the publication that began last has read the number of running jobs, the gauges will show
the load, whatever was set before. -/
theorem steady_of_half (h : Reachable name size m s)
    (hhalf : .half s.board.begun s.pool.running ∈ s.tellings) : s.Steady name size where
  counted := counted_of_reachable h
  ordered := ordered_of_reachable h
  current _ := ⟨_, .underway hhalf rfl, fun _ => id, fun _ => .inl⟩

theorem Steady.shows (H : s.Steady name size) (h : s.Settled) : s.board.metrics.Shows name
    ⟨s.pool.running, max size 1 - s.pool.running, s.pool.waiting⟩ := by
  have hreported : s.Reported := by
    refine ⟨h.sending, fun w hw => ?_, h.tellings ▸ List.not_mem_nil⟩
    exact Place.isLowered_of_isResting (h.workers w hw)
  obtain ⟨left, hleft, -, htells⟩ := H.current hreported
  have hnone : left = [] := by
    cases hleft with
    | underway hmem =>
      rw [h.tellings] at hmem
      cases hmem
    | ended => rfl
  have hshows : s.board.metrics.Shows s.pool.name s.pool.load := by
    refine Metrics.shows_iff.mpr fun gauge hgauge => ?_
    refine ((htells gauge hgauge).resolve_left fun hmem => ?_).shows
    rw [hnone] at hmem
    cases hmem
  rwa [H.counted.name, Pool.load, Pool.free, H.counted.staff] at hshows

end Traffic

end Logbook.Work
