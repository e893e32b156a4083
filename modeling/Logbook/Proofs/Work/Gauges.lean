import Logbook.Proofs.Counters

/-! The gauges that show the load of a pool. They are three samples under the name of the pool, set
one after the other; nothing else that is measured changes them, except for the load of a pool of
the same name. -/

namespace Logbook.Metrics

variable {key other : Key} {m m' : Metrics} {pool name : String} {load : Work.Load}

/-- The value of a gauge, if it is known. -/
def gauge? (key : Key) (m : Metrics) : Option Float :=
  match lookup key m.samples with
  | some (.gauge x) => some x
  | _ => none

theorem gauge?_setGauge_self (n : Nat) (m : Metrics) :
    (m.setGauge key n).gauge? key = some n.toUInt64.toFloat := by
  rw [gauge?, setGauge, lookup_alter_self]

theorem gauge?_setGauge_of_ne (h : other ≠ key) (n : Nat) (m : Metrics) :
    (m.setGauge key n).gauge? other = m.gauge? other := by
  rw [gauge?, setGauge, lookup_alter_of_ne h, gauge?]

theorem gauge?_count_of_ne (h : other ≠ key) (n : Nat) (m : Metrics) :
    (m.count key n).gauge? other = m.gauge? other := by
  rw [gauge?, count, lookup_alter_of_ne h, gauge?]

/-! ## The gauges of a pool -/

/-- The gauges that tell a load, in the order in which they are set. -/
def loadGauges (pool : String) (load : Work.Load) : List (Key × Nat) :=
  [(⟨"executor_running", "executor", pool⟩, load.running),
    (⟨"executor_free", "executor", pool⟩, load.free),
    (⟨"executor_waiting", "executor", pool⟩, load.waiting)]

/-- The gauges of a pool show a load, each number as a double. -/
structure Shows (pool : String) (load : Work.Load) (m : Metrics) : Prop where
  running : m.gauge? ⟨"executor_running", "executor", pool⟩ = some load.running.toUInt64.toFloat
  free : m.gauge? ⟨"executor_free", "executor", pool⟩ = some load.free.toUInt64.toFloat
  waiting : m.gauge? ⟨"executor_waiting", "executor", pool⟩ = some load.waiting.toUInt64.toFloat

theorem key_ne_of_name {a b : Key} (h : a.name ≠ b.name) : a ≠ b := fun heq => h (congrArg _ heq)

theorem shows_recordLoad (pool : String) (load : Work.Load) (m : Metrics) :
    (m.recordLoad pool load).Shows pool load where
  running := by
    rw [recordLoad, gauge?_setGauge_of_ne (key_ne_of_name (by simp)),
      gauge?_setGauge_of_ne (key_ne_of_name (by simp)), gauge?_setGauge_self]
  free := by
    rw [recordLoad, gauge?_setGauge_of_ne (key_ne_of_name (by simp)), gauge?_setGauge_self]
  waiting := gauge?_setGauge_self ..

theorem shows_iff : m.Shows pool load ↔
    ∀ gauge ∈ loadGauges pool load, m.gauge? gauge.1 = some gauge.2.toUInt64.toFloat := by
  rw [loadGauges, List.forall_mem_cons, List.forall_mem_cons, List.forall_mem_singleton]
  exact ⟨fun h => ⟨h.running, h.free, h.waiting⟩, fun h => ⟨h.1, h.2.1, h.2.2⟩⟩

/-- Each gauge of a pool tells one number. -/
theorem eq_of_mem_loadGauges {gauge gauge' : Key × Nat} (h : gauge ∈ loadGauges pool load)
    (h' : gauge' ∈ loadGauges pool load) (hkey : gauge.1 = gauge'.1) : gauge = gauge' := by
  have hnodup : ((loadGauges pool load).map (·.1)).Nodup := by simp [loadGauges]
  exact List.inj_on_of_nodup_map hnodup h h' hkey

/-- The gauges of a pool are the same in both. -/
def SameGauges (pool : String) (m m' : Metrics) : Prop :=
  ∀ gauge, m'.gauge? ⟨gauge, "executor", pool⟩ = m.gauge? ⟨gauge, "executor", pool⟩

theorem SameGauges.gauge? {gauge : Key × Nat} (h : m.SameGauges pool m')
    (hgauge : gauge ∈ loadGauges pool load) : m'.gauge? gauge.1 = m.gauge? gauge.1 := by
  simp only [loadGauges, List.mem_cons, List.not_mem_nil, or_false] at hgauge
  rcases hgauge with rfl | rfl | rfl <;> exact h _

theorem sameGauges_recordLoad (h : pool ≠ name) (load : Work.Load) (m : Metrics) :
    m.SameGauges pool (m.recordLoad name load) := by
  intro gauge
  have hne (other : String) : (⟨gauge, "executor", pool⟩ : Key) ≠ ⟨other, "executor", name⟩ :=
    fun heq => h (congrArg Key.value heq)
  rw [recordLoad, gauge?_setGauge_of_ne (hne _), gauge?_setGauge_of_ne (hne _),
    gauge?_setGauge_of_ne (hne _)]

theorem sameGauges_count (h : "executor" ≠ key.label) (n : Nat) (m : Metrics) :
    m.SameGauges pool (m.count key n) :=
  fun _ => gauge?_count_of_ne (fun heq => h (congrArg Key.label heq)) n m

theorem sameGauges_recordEmitted (pool : String) (outcome : Outcome) (m : Metrics) :
    m.SameGauges pool (m.recordEmitted outcome) := sameGauges_count (by simp) 1 m

theorem sameGauges_recordStage (pool : String) (stage hooks : Nat) (m : Metrics) :
    m.SameGauges pool (m.recordStage stage hooks) := sameGauges_count (by simp) hooks m

end Logbook.Metrics
