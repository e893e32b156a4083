import Logbook.Proofs.Shutdown.Deeds

/-! How a run closes its stages. A stage of which hooks were called is closed once, with their
number, after the last of them has returned; a stage without hooks is not closed. What the metrics
count of a stage is the sum over all runs. -/

namespace Logbook.Shutdown

variable {η : Type}

namespace Deed

/-- Whether a hook of the stage is called. -/
def isCallIn (stage : Stage) : Deed η → Bool
  | called e => e.stage = stage
  | _ => false

/-- The number of hooks with which the stage is closed. -/
def closing? (stage : Stage) : Deed η → Option Nat
  | closed k hooks _ => if k = stage then some hooks else none
  | _ => none

end Deed

/-- How many hooks of a stage were called. -/
def calledIn (stage : Stage) (deeds : List (Deed η)) : Nat := deeds.countP (Deed.isCallIn stage)

def closings (stage : Stage) (deeds : List (Deed η)) : List Nat :=
  deeds.filterMap (Deed.closing? stage)

/-- A stage is closed once, with the number of its hooks, if it has any. -/
def Closed (stage : Stage) (deeds : List (Deed η)) : Prop :=
  closings stage deeds = if calledIn stage deeds = 0 then [] else [calledIn stage deeds]

variable {stage : Stage} {deeds new : List (Deed η)}

theorem calledIn_append :
    calledIn stage (deeds ++ new) = calledIn stage deeds + calledIn stage new :=
  List.countP_append

theorem closings_append :
    closings stage (deeds ++ new) = closings stage deeds ++ closings stage new :=
  List.filterMap_append

theorem calledIn_called (stage : Stage) (e : Entry η) :
    calledIn stage [.called e] = if e.stage = stage then 1 else 0 := by
  simp [calledIn, Deed.isCallIn, List.countP_singleton]

theorem closings_closed (stage k : Stage) (hooks millis : Nat) :
    closings stage ([.closed k hooks millis] : List (Deed η)) =
      if k = stage then [hooks] else [] := by
  by_cases h : k = stage <;> simp [closings, Deed.closing?, h]

theorem Closed.sum_closings (h : Closed stage deeds) :
    (closings stage deeds).sum = calledIn stage deeds := by
  rw [h]
  split
  · next hcalled => exact hcalled.symm
  · exact List.sum_singleton

/-- A stage of which a hook was called has been closed at one place. -/
theorem Closed.exists_closed (h : Closed stage deeds) (hcalled : 0 < calledIn stage deeds) :
    ∃ early millis late, deeds = early ++ .closed stage (calledIn stage deeds) millis :: late ∧
      closings stage late = [] := by
  rw [Closed, if_neg (Nat.ne_of_gt hcalled), closings, List.filterMap_eq_cons_iff] at h
  obtain ⟨early, deed, late, hdeeds, -, hdeed, hlate⟩ := h
  cases deed with
  | closed k hooks millis =>
    simp only [Deed.closing?, Option.ite_none_right_eq_some, Option.some.injEq] at hdeed
    obtain ⟨rfl, hhooks⟩ := hdeed
    exact ⟨early, millis, late, hhooks ▸ hdeeds, hlate⟩
  | called | wrote | returned | emitted => cases hdeed

/-! ## Closing the stages -/

/-- The stages of a drain and the deeds of its run. Those that are ahead have left nothing; those
that are over were closed; the open one will be closed with the number of its hooks. -/
structure Drain.Tallies (d : Drain (Entry η)) (deeds : List (Deed η)) : Prop where
  ahead : ∃ passed, passed ++ d.upcoming = Stage.all
  upcoming : ∀ stage ∈ d.upcoming, calledIn stage deeds = 0 ∧ closings stage deeds = []
  closed : ∀ stage, (∀ entered, d.current = some entered → entered.stage ≠ stage) →
    Closed stage deeds
  current : ∀ entered, d.current = some entered → entered.stage ∉ d.upcoming ∧
    closings entered.stage deeds = [] ∧ 0 < entered.count ∧
    calledIn entered.stage deeds + entered.rest.length = entered.count ∧
    ∀ e ∈ entered.rest, e.stage = entered.stage

namespace Drain.Tallies

variable {d d' : Drain (Entry η)} {q : Sequencer (Entry η)} {entered : OpenStage (Entry η)}

theorem start (deadline : Nat) (carrier : Carrier) :
    (⟨deadline, Stage.all, none, carrier⟩ : Drain (Entry η)).Tallies [] where
  ahead := ⟨[], rfl⟩
  upcoming _ _ := ⟨rfl, rfl⟩
  closed _ _ := rfl
  current := nofun

theorem closed_of_none (h : d.Tallies deeds) (current : d.current = none) (stage : Stage) :
    Closed stage deeds :=
  h.closed stage fun _ hentered => nomatch current.symm.trans hentered

/-- Deeds that call nothing and close nothing. -/
theorem keep (h : d.Tallies deeds) (hupcoming : d'.upcoming = d.upcoming)
    (hcurrent : d'.current = d.current) (hcalled : ∀ stage, calledIn stage new = 0)
    (hclosings : ∀ stage, closings stage new = []) : d'.Tallies (deeds ++ new) := by
  have hcalled' (stage : Stage) : calledIn stage (deeds ++ new) = calledIn stage deeds := by
    rw [calledIn_append, hcalled, Nat.add_zero]
  have hclosings' (stage : Stage) : closings stage (deeds ++ new) = closings stage deeds := by
    rw [closings_append, hclosings, List.append_nil]
  refine ⟨hupcoming ▸ h.ahead, ?_, ?_, ?_⟩
  · rw [hupcoming]
    intro stage hstage
    rw [hcalled', hclosings']
    exact h.upcoming stage hstage
  · rw [hcurrent]
    intro stage hstage
    rw [Closed, hcalled', hclosings']
    exact h.closed stage hstage
  · rw [hcurrent, hupcoming]
    intro entered hentered
    rw [hcalled', hclosings']
    exact h.current entered hentered

theorem call (h : d.Tallies deeds) {e : Entry η} {rest : List (Entry η)}
    (current : d.current = some entered) (hrest : entered.rest = e :: rest) :
    e.stage = entered.stage ∧ Drain.Tallies { d with current := some { entered with rest := rest } }
      (deeds ++ [.called e]) := by
  obtain ⟨hupcoming, hclosings, hcount, hsum, hstages⟩ := h.current entered current
  rw [hrest] at hsum hstages
  have hstage : e.stage = entered.stage := hstages e (.head _)
  have hcalled (stage : Stage) : calledIn stage (deeds ++ [.called e]) =
      calledIn stage deeds + if entered.stage = stage then 1 else 0 := by
    rw [calledIn_append, calledIn_called, hstage]
  have hclosings' (stage : Stage) :
      closings stage (deeds ++ [.called e]) = closings stage deeds := by
    rw [closings_append]
    exact List.append_nil _
  refine ⟨hstage, h.ahead, ?_, ?_, ?_⟩
  · intro stage hmem
    have hne : entered.stage ≠ stage := fun heq => hupcoming (heq ▸ hmem)
    rw [hcalled, hclosings', if_neg hne]
    exact h.upcoming stage hmem
  · intro stage hne
    have hne : entered.stage ≠ stage := hne { entered with rest := rest } rfl
    rw [Closed, hcalled, hclosings', if_neg hne]
    exact h.closed stage fun entered' hentered' => by
      cases current.symm.trans hentered'
      exact hne
  · rintro _ ⟨rfl⟩
    refine ⟨hupcoming, ?_, hcount, ?_, fun e' he' => hstages e' (.tail _ he')⟩
    · rw [hclosings']
      exact hclosings
    · rw [hcalled, if_pos rfl, Nat.add_assoc, Nat.add_comm 1]
      exact hsum

theorem close (h : d.Tallies deeds) (current : d.current = some entered)
    (hrest : entered.rest = []) (now millis : Nat) :
    (d.closeStage now entered).Tallies
      (deeds ++ [.closed entered.stage entered.count millis]) := by
  obtain ⟨hupcoming, hclosings, hcount, hsum, -⟩ := h.current entered current
  rw [hrest, List.length_nil, Nat.add_zero] at hsum
  have hcalled (stage : Stage) :
      calledIn stage (deeds ++ [.closed entered.stage entered.count millis]) =
        calledIn stage deeds := by
    rw [calledIn_append]
    rfl
  refine ⟨h.ahead, ?_, ?_, nofun⟩
  · intro stage hmem
    have hne : entered.stage ≠ stage := fun heq => hupcoming (heq ▸ hmem)
    rw [hcalled, closings_append, closings_closed, if_neg hne, List.append_nil]
    exact h.upcoming stage hmem
  · intro stage _
    rw [Closed, hcalled, closings_append, closings_closed]
    by_cases heq : entered.stage = stage
    · subst heq
      rw [if_pos rfl, hclosings, hsum, if_neg (Nat.ne_of_gt hcount), List.nil_append]
    · rw [if_neg heq, List.append_nil]
      exact h.closed stage fun entered' hentered' => by
        cases current.symm.trans hentered'
        exact heq

theorem openStage (h : d.Tallies deeds) {later : List Stage} (current : d.current = none)
    (upcoming : d.upcoming = stage :: later) (hhooks : ∀ e ∈ q.hooks stage, e.stage = stage)
    (now : Nat) : (d.openStage now stage later q).1.Tallies deeds := by
  obtain ⟨passed, hpassed⟩ := h.ahead
  rw [upcoming] at hpassed
  have hlater : stage ∉ later := by
    have hnodup := hpassed ▸ Stage.nodup_all
    exact (List.nodup_cons.mp (List.nodup_append.mp hnodup).2.1).1
  obtain ⟨hcalled, hclosings⟩ := h.upcoming stage (upcoming ▸ .head _)
  refine ⟨⟨passed ++ [stage], by simpa [Drain.openStage] using hpassed⟩, ?_,
    fun k _ => h.closed_of_none current k, ?_⟩
  · exact fun k hk => h.upcoming k (upcoming ▸ .tail _ hk)
  · intro entered hentered
    cases hq : q.hooks stage with
    | nil => simp [Drain.openStage, Sequencer.take, hq] at hentered
    | cons e rest =>
      have hentered' : entered = ⟨stage, now, (e :: rest).length, e :: rest⟩ := by
        simpa [Drain.openStage, Sequencer.take, hq, eq_comm] using hentered
      subst hentered'
      refine ⟨hlater, hclosings, Nat.succ_pos _, ?_, fun e' he' => hhooks e' (hq ▸ he')⟩
      rw [hcalled, Nat.zero_add]

end Drain.Tallies

/-! ## Counting -/

theorem counter_measure (stage : Stage) (deeds : List (Deed η)) {m : Metrics}
    (h : m.counter (Metrics.stageKey stage) < 2 ^ 64) :
    (deeds.foldl Deed.measure m).counter (Metrics.stageKey stage) =
      (m.counter (Metrics.stageKey stage) + (closings stage deeds).sum) % 2 ^ 64 := by
  induction deeds generalizing m with
  | nil => exact (Nat.mod_eq_of_lt h).symm
  | cons deed deeds ih =>
    cases deed with
    | closed k hooks millis =>
      have hm := Metrics.counter_recordStage k stage hooks m
      change _ = (_ + (closings stage ([.closed k hooks millis] ++ deeds)).sum) % _
      rw [closings_append, closings_closed, List.sum_append, ← Nat.add_assoc]
      by_cases hk : k = stage
      · rw [if_pos hk] at hm
        rw [if_pos hk, List.sum_singleton, ← Nat.mod_add_mod _ _ (closings stage deeds).sum, ← hm]
        exact ih (hm ▸ Nat.mod_lt _ (Nat.two_pow_pos 64))
      · rw [if_neg hk] at hm
        rw [if_neg hk, List.sum_nil, Nat.add_zero, ← hm]
        exact ih (hm ▸ h)
    | emitted e =>
      have hm := Metrics.counter_recordEmitted_stageKey e.outcome stage m
      exact (ih (m := Deed.measure m (.emitted e)) (hm ▸ h)).trans (by rw [Deed.measure, hm]; rfl)
    | called | wrote | returned => exact ih h

/-- The hooks that were called are those of the calls. -/
theorem calledIn_eq (stage : Stage) (deeds : List (Deed η)) :
    calledIn stage deeds = (deeds.filterMap Deed.called?).countP (·.stage = stage) := by
  rw [List.countP_filterMap]
  refine List.countP_congr fun deed _ => ?_
  cases deed <;> rfl

end Logbook.Shutdown
