import Logbook.Proofs.Delivery.Shipped
import Logbook.Proofs.Shutdown.Closings

/-! The record of the stop. A run writes it while it goes through the stages up to the release of
the clients, and emits it before the first of the stages behind them. -/

namespace Logbook.Shutdown

open Trace (Scope)

variable {η : Type}

/-! ## What the record tells -/

/-- All that is written into the record of the stop: what it begins with, and what the deeds
write. -/
def stopWrites (masked : Trace.Mask.Registry) (timeout : Nat) (deeds : List (Deed η)) :
    List Scope.Write :=
  .put masked "action_type" [stopType] :: .setStat "shutdown_timeout_ms" (millisStat timeout) ::
    deeds.flatMap Deed.writes

/-- The record of the stop after some deeds of its run. -/
def stopRecord (masked : Trace.Mask.Registry) (id : String) (moment : Moment) (timeout : Nat)
    (deeds : List (Deed η)) : Record :=
  { Record.start masked id moment stopAction stopType with
    scope := (Scope.named id stopAction).writeAll (stopWrites masked timeout deeds) }

/-- No hook writes to a stat. -/
def Spared (key : String) (deeds : List (Deed η)) : Prop :=
  ∀ w, .wrote w ∈ deeds → w.touches key = false

/-- What a scope tells of a stage: the number of its hooks and the time they took, if a hook was
called. Hooks may write under the same names. -/
structure Accounts (stage : Stage) (deeds : List (Deed η)) (scope : Scope) : Prop where
  known : ∀ what ∈ ["hooks", "ms"], (scope.stats.get? (Drain.statKey stage what)).isSome = true ↔
    0 < calledIn stage deeds ∨ ¬ Spared (Drain.statKey stage what) deeds
  values : 0 < calledIn stage deeds → ∃ early millis late,
    deeds = early ++ .closed stage (calledIn stage deeds) millis :: late ∧
    (Spared (Drain.statKey stage "hooks") late →
      scope.stats.get? (Drain.statKey stage "hooks") = some (millisStat (calledIn stage deeds))) ∧
    (Spared (Drain.statKey stage "ms") late →
      scope.stats.get? (Drain.statKey stage "ms") = some (millisStat millis))

/-- The record of the stop tells of all that its deeds wrote, and of the stages that were closed. -/
structure Describes (masked : Trace.Mask.Registry) (timeout : Nat) (deeds : List (Deed η))
    (r : Record) : Prop where
  begun : ∃ id moment, r = stopRecord masked id moment timeout deeds
  context (key : String) : r.scope.context.get? key =
    match (stopWrites masked timeout deeds).filterMap (Scope.Write.values? key) with
    | [] => none
    | puts => some puts.flatten
  stats (key : String) : r.scope.stats.get? key =
    (stopWrites masked timeout deeds).foldl (Scope.Write.statAfter key) none
  stages (stage : Stage) : Accounts stage deeds r.scope

/-! ## Stats of the stages -/

theorem toList_statKey (stage : Stage) (what : String) : (Drain.statKey stage what).toList =
    "shutdown_stage_".toList ++ ((toString stage.index).toList ++ ("_".toList ++ what.toList)) := by
  change ("shutdown_stage_" ++ toString stage.index ++ "_" ++ what).toList = _
  rw [String.toList_append, String.toList_append, String.toList_append, List.append_assoc,
    List.append_assoc]

theorem length_toString_index (stage : Stage) : (toString stage.index).toList.length = 1 := by
  cases stage <;> rfl

theorem statKey_injective {a b : Stage} {what other : String}
    (h : Drain.statKey a what = Drain.statKey b other) : a = b ∧ what = other := by
  have hlist := congrArg String.toList h
  rw [toList_statKey, toList_statKey] at hlist
  have hlength := (length_toString_index a).trans (length_toString_index b).symm
  obtain ⟨hindex, hwhat⟩ := List.append_inj (List.append_cancel_left hlist) hlength
  exact ⟨Metrics.eq_of_toString_index (String.toList_inj.mp hindex),
    String.toList_inj.mp (List.append_cancel_left hwhat)⟩

theorem statKey_ne_timeout (stage : Stage) (what : String) :
    "shutdown_timeout_ms" ≠ Drain.statKey stage what := by
  intro h
  have htake := congrArg (fun key => key.toList.take 10) h
  rw [toList_statKey, List.take_append_of_le_length (by decide)] at htake
  exact absurd htake (by decide)

/-- A deed writes to a stat of a stage if it closes the stage, or is such a write itself. -/
theorem touches_writes {stage : Stage} {what : String} (hwhat : what ∈ ["hooks", "ms"])
    {deed : Deed η} : (∃ w ∈ deed.writes, w.touches (Drain.statKey stage what) = true) ↔
      deed.closing? stage ≠ none ∨
        ∃ w, deed = .wrote w ∧ w.touches (Drain.statKey stage what) = true := by
  cases deed with
  | called | returned | emitted => simp [Deed.writes, Deed.closing?]
  | wrote w => simp [Deed.writes, Deed.closing?]
  | closed k hooks millis =>
    have hkey (other : String) : Drain.statKey k other = Drain.statKey stage what ↔
        k = stage ∧ other = what :=
      ⟨statKey_injective, fun h => h.1 ▸ h.2 ▸ rfl⟩
    have hwhat : what = "hooks" ∨ what = "ms" := by simpa using hwhat
    rcases hwhat with rfl | rfl <;> simp [Deed.writes, Deed.closing?, Scope.Write.touches, hkey]

theorem exists_touches_iff {stage : Stage} {what : String} (hwhat : what ∈ ["hooks", "ms"])
    {deeds : List (Deed η)} :
    (∃ w ∈ deeds.flatMap Deed.writes, w.touches (Drain.statKey stage what) = true) ↔
      closings stage deeds ≠ [] ∨ ¬ Spared (Drain.statKey stage what) deeds := by
  have hspared : ¬ Spared (Drain.statKey stage what) deeds ↔
      ∃ deed ∈ deeds, ∃ w, deed = .wrote w ∧ w.touches (Drain.statKey stage what) = true := by
    simp [Spared]
  have hclosings : closings stage deeds ≠ [] ↔ ∃ deed ∈ deeds, deed.closing? stage ≠ none := by
    simp [closings, List.filterMap_eq_nil_iff]
  rw [hspared, hclosings, ← exists_or]
  simp only [List.mem_flatMap, ← and_or_left, ← touches_writes hwhat]
  constructor
  · rintro ⟨w, ⟨deed, hdeed, hw⟩, h⟩
    exact ⟨deed, hdeed, w, hw, h⟩
  · rintro ⟨deed, hdeed, w, hw, h⟩
    exact ⟨w, ⟨deed, hdeed, hw⟩, h⟩

variable {masked : Trace.Mask.Registry} {timeout : Nat} {deeds new : List (Deed η)} {id : String}
  {moment : Moment} {stage : Stage}

theorem stats_stopRecord (key : String) :
    (stopRecord masked id moment timeout deeds).scope.stats.get? key =
      (stopWrites masked timeout deeds).foldl (Scope.Write.statAfter key) none :=
  Scope.stats_writeAll _

/-- Writes that are not about a stat leave it as it was when its stage was closed. -/
theorem foldl_statAfter_closed {early late : List (Deed η)} {hooks millis : Nat} {what : String}
    (hwhat : what ∈ ["hooks", "ms"]) (hclosings : closings stage late = [])
    (hspared : Spared (Drain.statKey stage what) late) :
    (stopWrites masked timeout (early ++ .closed stage hooks millis :: late)).foldl
      (Scope.Write.statAfter (Drain.statKey stage what)) none =
      some (millisStat (if what = "hooks" then hooks else millis)) := by
  have hlate : ∀ w ∈ late.flatMap Deed.writes, w.touches (Drain.statKey stage what) = false := by
    refine fun w hw => Bool.eq_false_iff.mpr fun h => ?_
    rcases (exists_touches_iff hwhat).mp ⟨w, hw, h⟩ with h | h
    · exact h hclosings
    · exact h hspared
  have hne : "ms" ≠ "hooks" := by decide
  simp only [stopWrites, List.flatMap_append, List.flatMap_cons, Deed.writes, List.foldl_cons,
    List.foldl_append, List.foldl_nil, Scope.foldl_statAfter hlate, Scope.Write.statAfter]
  have hwhat : what = "hooks" ∨ what = "ms" := by simpa using hwhat
  rcases hwhat with rfl | rfl
  · rw [if_neg fun h => hne (statKey_injective h).2, if_pos rfl, if_pos rfl]
  · rw [if_pos rfl, if_neg hne]

theorem accounts_stopRecord (hclosed : Closed stage deeds) :
    Accounts stage deeds (stopRecord masked id moment timeout deeds).scope where
  known what hwhat := by
    have hcalled : closings stage deeds ≠ [] ↔ 0 < calledIn stage deeds := by
      rw [hclosed, Nat.pos_iff_ne_zero]
      split <;> simp_all
    rw [stats_stopRecord, Scope.isSome_foldl_statAfter, stopWrites, List.exists_mem_cons_iff,
      List.exists_mem_cons_iff, exists_touches_iff hwhat, hcalled]
    simp [Scope.Write.touches, statKey_ne_timeout]
  values hcalled := by
    obtain ⟨early, millis, late, hdeeds, hlate⟩ := hclosed.exists_closed hcalled
    refine ⟨early, millis, late, hdeeds, fun hspared => ?_, fun hspared => ?_⟩
    · rw [stats_stopRecord]
      conv_lhs => rw [hdeeds]
      exact foldl_statAfter_closed (.head _) hlate hspared
    · rw [stats_stopRecord]
      conv_lhs => rw [hdeeds]
      exact foldl_statAfter_closed (.tail _ (.head _)) hlate hspared

theorem describes_stopRecord (hclosed : ∀ stage, Closed stage deeds) :
    Describes masked timeout deeds (stopRecord masked id moment timeout deeds) where
  begun := ⟨id, moment, rfl⟩
  context key := by
    refine (Scope.context_writeAll _).trans ?_
    cases (stopWrites masked timeout deeds).filterMap (Scope.Write.values? key) <;> rfl
  stats := stats_stopRecord
  stages stage := accounts_stopRecord (hclosed stage)

theorem stopRecord_append : stopRecord masked id moment timeout (deeds ++ new) =
    { stopRecord masked id moment timeout deeds with
      scope := (stopRecord masked id moment timeout deeds).scope.writeAll
        (new.flatMap Deed.writes) } := by
  simp only [stopRecord, stopWrites, List.flatMap_append, ← Scope.writeAll_append,
    List.cons_append]

end Logbook.Shutdown
