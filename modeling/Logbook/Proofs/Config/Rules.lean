import Mathlib.Data.List.Basic
import Mathlib.Data.List.Induction
import Logbook.Config.Validation
import Logbook.Proofs.Text.Blank

/-! The rules of a configuration one by one. What is found wrong with a configuration are the rules
that it breaks, each told once and in their order (`exists_rules`). -/

namespace Logbook.Config

/-- What a configuration has to satisfy. Each masked name has a rule of its own, by its place. -/
inductive Rule where
  | timeout
  | delay
  | pool
  | name (place : Nat)
  | bindAddress
  | metricsAddress

namespace Rule

inductive Broken (c : Config) : Rule → Prop where
  | timeout (h : c.shutdown.timeoutSecs = 0) : Broken c timeout
  | delay (h : c.shutdown.delaySecs = some 0) : Broken c delay
  | pool (h : c.executor.poolSize = 0) : Broken c pool
  | name {place : Nat} {text : String} (hplace : c.trace.maskedFields[place]? = some text)
      (h : ∀ x ∈ text.toList, Blank.isBlank x = true) : Broken c (name place)
  | bindAddress (h : Net.Endpoint.read? c.http.bindAddress = none) : Broken c bindAddress
  /-- The address of the metrics matters if they are enabled. -/
  | metricsAddress (henabled : c.observability.metricsEnabled = true)
      (h : Net.Endpoint.read? c.observability.metricsAddress = none) : Broken c metricsAddress

/-- What is told of a broken rule. -/
def violation (c : Config) : Rule → Violation
  | timeout => ⟨"shutdown.timeout_secs", "must be at least 1"⟩
  | delay => ⟨"shutdown.delay_secs", "must be at least 1 when set"⟩
  | pool => ⟨"executor.pool_size", "must be at least 1"⟩
  | name place => ⟨"trace.masked_fields[" ++ toString place ++ "]", "must not be empty"⟩
  | bindAddress =>
    ⟨"http.bind_address", "invalid socket address '" ++ c.http.bindAddress ++ "'"⟩
  | metricsAddress =>
    ⟨"observability.metrics_address",
      "invalid socket address '" ++ c.observability.metricsAddress ++ "'"⟩

/-- The place of a rule among the kinds of rules. -/
def kind : Rule → Nat
  | timeout => 0
  | delay => 1
  | pool => 2
  | name _ => 3
  | bindAddress => 4
  | metricsAddress => 5

/-- The order in which rules are told: by kind, and names by place. -/
def Precedes (r s : Rule) : Prop :=
  r.kind < s.kind ∨ ∃ i j, r = name i ∧ s = name j ∧ i < j

/-- Whether a rule is broken. -/
def isBroken (c : Config) : Rule → Bool
  | timeout => c.shutdown.timeoutSecs = 0
  | delay => c.shutdown.delaySecs = some 0
  | pool => c.executor.poolSize = 0
  | name place => c.trace.maskedFields[place]?.any Blank.isBlankText
  | bindAddress => (Net.Endpoint.read? c.http.bindAddress).isNone
  | metricsAddress =>
    c.observability.metricsEnabled &&
      (Net.Endpoint.read? c.observability.metricsAddress).isNone

theorem isBroken_iff {c : Config} {r : Rule} : r.isBroken c = true ↔ r.Broken c := by
  constructor
  · intro h
    cases r with
    | timeout => exact .timeout (of_decide_eq_true h)
    | delay => exact .delay (of_decide_eq_true h)
    | pool => exact .pool (of_decide_eq_true h)
    | name place =>
      obtain ⟨text, hplace, hblank⟩ := (Option.any_eq_true _ _).mp h
      exact .name hplace (Blank.isBlankText_iff.mp hblank)
    | bindAddress => exact .bindAddress (Option.isNone_iff_eq_none.mp h)
    | metricsAddress =>
      obtain ⟨henabled, hnone⟩ := Bool.and_eq_true_iff.mp h
      exact .metricsAddress henabled (Option.isNone_iff_eq_none.mp hnone)
  · intro h
    cases h with
    | timeout h | delay h | pool h => exact decide_eq_true h
    | name hplace h => exact (Option.any_eq_true _ _).mpr ⟨_, hplace, Blank.isBlankText_iff.mpr h⟩
    | bindAddress h => exact Option.isNone_iff_eq_none.mpr h
    | metricsAddress henabled h =>
      exact Bool.and_eq_true_iff.mpr ⟨henabled, Option.isNone_iff_eq_none.mpr h⟩

end Rule

/-- The rules that a configuration could break, in their order. -/
def rules (c : Config) : List Rule :=
  [.timeout, .delay, .pool] ++ (List.range c.trace.maskedFields.length).map .name ++
    [.bindAddress, .metricsAddress]

theorem pairwise_rules (c : Config) : c.rules.Pairwise Rule.Precedes := by
  have hnames : ((List.range c.trace.maskedFields.length).map Rule.name).Pairwise Rule.Precedes :=
    List.pairwise_lt_range.map _ fun i j hlt => .inr ⟨i, j, rfl, rfl, hlt⟩
  simp [rules, List.pairwise_append, hnames, Rule.Precedes, Rule.kind, or_imp, forall_and]

theorem mem_rules_of_broken {c : Config} {r : Rule} (h : r.Broken c) : r ∈ c.rules := by
  cases h with
  | timeout | delay | pool | bindAddress | metricsAddress => simp [rules]
  | name hplace =>
    obtain ⟨hlt, -⟩ := List.getElem?_eq_some_iff.mp hplace
    simpa [rules] using hlt

/-- What is told of a rule: nothing, unless it is broken. -/
def Rule.told (c : Config) (r : Rule) : List Violation :=
  if r.isBroken c then [r.violation c] else []

theorem flatMap_told (c : Config) (rules : List Rule) :
    rules.flatMap (Rule.told c) = (rules.filter (Rule.isBroken c)).map (Rule.violation c) := by
  induction rules with
  | nil => rfl
  | cons r rules ih =>
    rw [List.flatMap_cons, ih, Rule.told]
    split
    · next h => rw [List.filter_cons_of_pos h, List.map_cons, List.singleton_append]
    · next h => rw [List.filter_cons_of_neg h, List.nil_append]

/-- Elements with their places, by the places. -/
theorem flatMap_zipIdx {α β : Type} (f : α → Nat → List β) (l : List α) :
    (l.zipIdx.flatMap fun (x, i) => f x i) =
      (List.range l.length).flatMap fun i => (l[i]?.map (f · i)).getD [] := by
  induction l using List.reverseRecOn with
  | nil => rfl
  | append_singleton l x ih =>
    have hplaces : ∀ i ∈ List.range l.length, (((l ++ [x])[i]?.map (f · i)).getD []) =
        (l[i]?.map (f · i)).getD [] := by
      intro i hi
      rw [List.getElem?_append_left (List.mem_range.mp hi)]
    rw [List.zipIdx_append, List.flatMap_append, ih, List.length_append, List.length_singleton,
      List.range_succ, List.flatMap_append, List.flatMap_congr hplaces]
    simp

theorem blankNames_eq (c : Config) : blankNames c.trace.maskedFields =
    ((List.range c.trace.maskedFields.length).map Rule.name).flatMap (Rule.told c) := by
  refine (flatMap_zipIdx (fun name i => violationIf (Blank.isBlankText name)
    ("trace.masked_fields[" ++ toString i ++ "]") "must not be empty") _).trans ?_
  rw [List.flatMap_map]
  refine List.flatMap_congr fun i _ => ?_
  rw [Rule.told, Rule.isBroken]
  cases c.trace.maskedFields[i]? <;> rfl

theorem violations_eq (c : Config) :
    c.violations = (c.rules.filter (Rule.isBroken c)).map (Rule.violation c) := by
  have hmetrics : (if c.observability.metricsEnabled then
      badAddress "observability.metrics_address" c.observability.metricsAddress else []) =
      Rule.metricsAddress.told c := by
    rw [Rule.told, Rule.isBroken]
    cases c.observability.metricsEnabled <;> rfl
  rw [← flatMap_told, rules, List.flatMap_append, List.flatMap_append, ← blankNames_eq, violations,
    hmetrics]
  simp only [List.flatMap_cons, List.flatMap_nil, List.append_nil, List.append_assoc]
  rfl

/-- **Complete validation.** The violations of a configuration are the rules that it breaks, each
told once and in the order of the rules. -/
theorem exists_rules (c : Config) : ∃ rules : List Rule, rules.Pairwise Rule.Precedes ∧
    (∀ r, r ∈ rules ↔ r.Broken c) ∧ c.violations = rules.map (Rule.violation c) := by
  refine ⟨_, (pairwise_rules c).filter _, fun r => ?_, violations_eq c⟩
  rw [List.mem_filter, Rule.isBroken_iff]
  exact ⟨And.right, fun h => ⟨mem_rules_of_broken h, h⟩⟩

end Logbook.Config
