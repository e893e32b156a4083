import Mathlib
import Logbook.Metrics
import Logbook.Shutdown.Stage

/-! The counters among the metrics: each one tells how often it was raised, and by how much, since
the beginning. -/

namespace Logbook.Metrics

open Shutdown (Stage)

variable {key other : Key}

def lookup (key : Key) : List (Key × Value) → Option Value
  | [] => none
  | (k, v) :: samples => if k = key then some v else lookup key samples

/-- The value of a counter; zero if it is not known. -/
def counter (key : Key) (m : Metrics) : Nat :=
  match lookup key m.samples with
  | some (.counter n) => n
  | _ => 0

theorem lookup_alter_self (f : Option Value → Value) (samples : List (Key × Value)) :
    lookup key (alter key f samples) = some (f (lookup key samples)) := by
  induction samples with
  | nil => simp [alter, lookup]
  | cons sample samples ih =>
    obtain ⟨k, v⟩ := sample
    by_cases h : k = key
    · simp [alter, lookup, h]
    · simp [alter, lookup, h, ih]

theorem lookup_alter_of_ne (h : other ≠ key) (f : Option Value → Value)
    (samples : List (Key × Value)) : lookup other (alter key f samples) = lookup other samples := by
  induction samples with
  | nil => simp [alter, lookup, h.symm]
  | cons sample samples ih =>
    obtain ⟨k, v⟩ := sample
    by_cases hk : k = key
    · subst hk
      simp [alter, lookup, h.symm]
    · simp [alter, lookup, hk, ih]

theorem counter_count_self (n : Nat) (m : Metrics) :
    (m.count key n).counter key = (m.counter key + n) % 2 ^ 64 := by
  rw [counter, count, lookup_alter_self, counter]
  cases lookup key m.samples with
  | none => exact congrArg (· % 2 ^ 64) (Nat.zero_add n).symm
  | some v =>
    cases v with
    | counter old => rfl
    | gauge x => exact congrArg (· % 2 ^ 64) (Nat.zero_add n).symm

theorem counter_count_of_ne (h : other ≠ key) (n : Nat) (m : Metrics) :
    (m.count key n).counter other = m.counter other := by
  rw [counter, count, lookup_alter_of_ne h, counter]

theorem counter_setGauge_of_ne (h : other ≠ key) (n : Nat) (m : Metrics) :
    (m.setGauge key n).counter other = m.counter other := by
  rw [counter, setGauge, lookup_alter_of_ne h, counter]

/-! ## Records and stages -/

/-- The counter of the emitted records with a verdict. -/
def emittedKey (outcome : Outcome) : Key := ⟨"action_log_emitted_total", "result", outcome.name⟩

/-- The counter of the hooks that were called in a stage. -/
def stageKey (stage : Stage) : Key :=
  ⟨"shutdown_stage_hooks_total", "stage", toString stage.index⟩

theorem emittedKey_injective {a b : Outcome} (h : emittedKey a = emittedKey b) : a = b := by
  have hname : a.name = b.name := congrArg Key.value h
  cases a <;> cases b <;> first | rfl | exact absurd hname (by decide)

theorem eq_of_toString_index {a b : Stage} (h : toString a.index = toString b.index) : a = b := by
  cases a <;> cases b <;> first | rfl | exact absurd h (by decide)

theorem stageKey_injective {a b : Stage} (h : stageKey a = stageKey b) : a = b :=
  eq_of_toString_index (congrArg Key.value h)

theorem emittedKey_ne_stageKey (outcome : Outcome) (stage : Stage) :
    emittedKey outcome ≠ stageKey stage := by
  intro h
  have hname : "action_log_emitted_total" = "shutdown_stage_hooks_total" := congrArg Key.name h
  exact absurd hname (by decide)

theorem counter_recordEmitted (outcome other : Outcome) (m : Metrics) :
    (m.recordEmitted outcome).counter (emittedKey other) =
      if outcome = other then (m.counter (emittedKey other) + 1) % 2 ^ 64
      else m.counter (emittedKey other) := by
  split
  · next h => exact h ▸ counter_count_self 1 m
  · next h => exact counter_count_of_ne (fun heq => h (emittedKey_injective heq).symm) 1 m

theorem counter_recordStage (stage other : Stage) (hooks : Nat) (m : Metrics) :
    (m.recordStage stage.index hooks).counter (stageKey other) =
      if stage = other then (m.counter (stageKey other) + hooks) % 2 ^ 64
      else m.counter (stageKey other) := by
  split
  · next h => exact h ▸ counter_count_self hooks m
  · next h => exact counter_count_of_ne (fun heq => h (stageKey_injective heq).symm) hooks m

/-- Records and stages are counted apart. -/
theorem counter_recordStage_emittedKey (stage : Stage) (hooks : Nat) (outcome : Outcome)
    (m : Metrics) : (m.recordStage stage.index hooks).counter (emittedKey outcome) =
      m.counter (emittedKey outcome) :=
  counter_count_of_ne (emittedKey_ne_stageKey outcome stage) hooks m

theorem counter_recordEmitted_stageKey (outcome : Outcome) (stage : Stage) (m : Metrics) :
    (m.recordEmitted outcome).counter (stageKey stage) = m.counter (stageKey stage) :=
  counter_count_of_ne (emittedKey_ne_stageKey outcome stage).symm 1 m

/-- The gauges of a pool are none of the counters. -/
theorem counter_recordLoad (pool : String) (load : Work.Load) (outcome : Outcome) (m : Metrics) :
    (m.recordLoad pool load).counter (emittedKey outcome) = m.counter (emittedKey outcome) := by
  have hne {name : String} (h : "action_log_emitted_total" ≠ name) :
      emittedKey outcome ≠ ⟨name, "executor", pool⟩ := fun heq => h (congrArg Key.name heq)
  rw [recordLoad, counter_setGauge_of_ne (hne (by decide)),
    counter_setGauge_of_ne (hne (by decide)), counter_setGauge_of_ne (hne (by decide))]

end Logbook.Metrics
