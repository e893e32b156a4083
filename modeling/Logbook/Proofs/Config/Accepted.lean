import Logbook.Config.Load
import Logbook.Proofs.Config.Rules
import Logbook.Proofs.Number.Unsigned

/-! Which configurations are accepted. The environment changes the timeout and the delay of what the
document says; what comes of it is accepted if it breaks no rule, so that a variable can repair a
document or spoil it. -/

namespace Logbook.Config

/-! ## Numbers of seconds -/

/-- The text, without white space around it, is an optional plus sign and digits that denote a
number of 64 bits. -/
def IsSeconds (value : String) (n : Nat) : Prop :=
  ∃ before numeral after digits : List Char,
    value.toList = before ++ numeral ++ after ∧ (∀ c ∈ before, Blank.isBlank c = true) ∧
    (∀ c ∈ after, Blank.isBlank c = true) ∧ (numeral = digits ∨ numeral = '+' :: digits) ∧
    digits ≠ [] ∧ (∀ c ∈ digits, c.isDigit = true) ∧ Nat.ofDigitChars 10 digits 0 = n ∧ n < 2 ^ 64

theorem isBlank_of_isDigit {c : Char} (h : c.isDigit = true) : Blank.isBlank c = false := by
  have hrange := Char.isDigit_iff_toNat.mp h
  simp only [Char.reduceToNat] at hrange
  simp only [Blank.isBlank, Blank.ranges, List.any_cons, List.any_nil, Bool.or_false,
    Bool.or_eq_false_iff, Bool.and_eq_false_iff, decide_eq_false_iff_not]
  omega

theorem seconds?_eq_some_iff {value : String} {n : Nat} :
    seconds? value = some n ↔ IsSeconds value n := by
  rw [seconds?, Digits.read?_ten_eq_some_iff]
  constructor
  · rintro ⟨digits, hnumeral, hne, hdigits, hvalue, hlt⟩
    obtain ⟨before, after, heq, hbefore, hafter⟩ := Blank.exists_trim value.toList
    exact ⟨before, _, after, digits, heq, hbefore, hafter, hnumeral, hne, hdigits, hvalue, hlt⟩
  · rintro ⟨before, numeral, after, digits, heq, hbefore, hafter, hnumeral, hne, hdigits, hvalue,
      hlt⟩
    have hblank : ∀ c ∈ digits, Blank.isBlank c = false :=
      fun c hc => isBlank_of_isDigit (hdigits c hc)
    have htrim : Blank.trim value.toList = numeral := by
      rw [heq]
      rcases hnumeral with rfl | rfl
      · exact Blank.trim_append hbefore hblank hafter hne
      · refine Blank.trim_append hbefore ?_ hafter (List.cons_ne_nil _ _)
        exact List.forall_mem_cons.mpr ⟨by decide, hblank⟩
    exact ⟨digits, htrim ▸ hnumeral, hne, hdigits, hvalue, hlt⟩

/-! ## Variables -/

/-- What a variable of the environment tells: nothing, or a number of seconds. -/
inductive Tells (env : Environment) (name : String) : Option Nat → Prop where
  | unset (h : env name = none) : Tells env name none
  | seconds {value : String} {n : Nat} (h : env name = some value) (hn : IsSeconds value n) :
    Tells env name (some n)

/-- The variable has a value that is no number of seconds. -/
def IsBad (env : Environment) (name value : String) : Prop :=
  env name = some value ∧ ∀ n, ¬ IsSeconds value n

variable {env : Environment} {name value : String} {told : Option Nat}

theorem secondsIn_eq_ok_iff : secondsIn env name = .ok told ↔ Tells env name told := by
  constructor
  · intro h
    rw [secondsIn] at h
    split at h
    · next hnone =>
      cases h
      exact .unset hnone
    · next value hsome =>
      split at h
      · cases h
      · next n hn =>
        cases h
        exact .seconds hsome (seconds?_eq_some_iff.mp hn)
  · intro h
    cases h with
    | unset h => rw [secondsIn, h]
    | seconds h hn => rw [secondsIn, h]; simp only [seconds?_eq_some_iff.mpr hn]

theorem IsBad.secondsIn_eq (h : IsBad env name value) :
    secondsIn env name = .error (.variable name value) := by
  obtain ⟨hvalue, hbad⟩ := h
  have hnone : seconds? value = none :=
    Option.eq_none_iff_forall_ne_some.mpr fun n hn => hbad n (seconds?_eq_some_iff.mp hn)
  rw [secondsIn, hvalue]
  simp only [hnone]

/-! ## Configurations -/

/-- The configuration with another timeout and another delay, where these are told. -/
def withDrain (timeout delay : Option Nat) (c : Config) : Config :=
  { c with shutdown :=
    { timeoutSecs := timeout.getD c.shutdown.timeoutSecs
      delaySecs := delay.or c.shutdown.delaySecs } }

structure Valid (c : Config) : Prop where
  timeout : 1 ≤ c.shutdown.timeoutSecs
  delay : ∀ secs, c.shutdown.delaySecs = some secs → 1 ≤ secs
  pool : 1 ≤ c.executor.poolSize
  names : ∀ name ∈ c.trace.maskedFields, ∃ x ∈ name.toList, Blank.isBlank x = false
  bindAddress : (Net.Endpoint.read? c.http.bindAddress).isSome
  metricsAddress : c.observability.metricsEnabled = true →
    (Net.Endpoint.read? c.observability.metricsAddress).isSome

variable {c file : Config} {document : String} {timeout delay : Option Nat}

/-- Variables that do not tell zero spoil nothing. -/
theorem Valid.withDrain (h : c.Valid) (htimeout : ∀ secs, timeout = some secs → 1 ≤ secs)
    (hdelay : ∀ secs, delay = some secs → 1 ≤ secs) : (c.withDrain timeout delay).Valid where
  timeout := by
    cases timeout with
    | none => exact h.timeout
    | some secs => exact htimeout secs rfl
  delay := by
    cases delay with
    | none => exact h.delay
    | some secs => exact hdelay
  pool := h.pool
  names := h.names
  bindAddress := h.bindAddress
  metricsAddress := h.metricsAddress

theorem valid_default : default.Valid := ⟨by decide, nofun, by decide, nofun, by decide, nofun⟩

theorem valid_iff : c.Valid ↔ ∀ r : Rule, ¬ r.Broken c := by
  constructor
  · intro h r hbroken
    cases hbroken with
    | timeout hzero => exact absurd h.timeout (by omega)
    | delay hzero => exact absurd (h.delay 0 hzero) (by omega)
    | pool hzero => exact absurd h.pool (by omega)
    | name hplace hblank =>
      obtain ⟨x, hx, hvisible⟩ := h.names _ (List.mem_of_getElem? hplace)
      exact Bool.false_ne_true (hvisible.symm.trans (hblank x hx))
    | bindAddress hnone =>
      exact Option.not_isSome_iff_eq_none.mpr hnone h.bindAddress
    | metricsAddress henabled hnone =>
      exact Option.not_isSome_iff_eq_none.mpr hnone (h.metricsAddress henabled)
  · intro h
    refine ⟨?_, ?_, ?_, ?_, ?_, ?_⟩
    · exact Nat.one_le_iff_ne_zero.mpr fun hzero => h _ (.timeout hzero)
    · rintro secs hsecs
      exact Nat.one_le_iff_ne_zero.mpr fun hzero => h _ (.delay (hzero ▸ hsecs))
    · exact Nat.one_le_iff_ne_zero.mpr fun hzero => h _ (.pool hzero)
    · intro name hname
      obtain ⟨i, hi⟩ := List.mem_iff_getElem?.mp hname
      by_contra hblank
      push Not at hblank
      exact h _ (.name hi fun x hx => Bool.eq_true_of_not_eq_false (hblank x hx))
    · exact Option.isSome_iff_ne_none.mpr fun hnone => h _ (.bindAddress hnone)
    · exact fun henabled =>
        Option.isSome_iff_ne_none.mpr fun hnone => h _ (.metricsAddress henabled hnone)

/-- A configuration is accepted as it is, or all rules that it breaks are told. -/
theorem validated_eq (c : Config) : (c.Valid ∧ c.validated = .ok c) ∨
    (¬ c.Valid ∧ c.validated = .error (.invalid c.violations)) := by
  obtain ⟨rules, -, hmem, hviolations⟩ := exists_rules c
  have hvalid : c.Valid ↔ c.violations = [] := by
    rw [valid_iff, hviolations, List.map_eq_nil_iff, List.eq_nil_iff_forall_not_mem]
    exact forall_congr' fun r => not_congr (hmem r).symm
  rw [validated, hvalid]
  cases c.violations with
  | nil => exact .inl ⟨rfl, rfl⟩
  | cons v vs => exact .inr ⟨List.cons_ne_nil v vs, rfl⟩

/-- The variables are read one after the other, the timeout first. -/
theorem parse_eq (h : ofToml document = .ok file) (env : Environment) : parse document env =
    (secondsIn env timeoutVariable).bind fun timeout =>
      (secondsIn env delayVariable).bind fun delay => (file.withDrain timeout delay).validated := by
  have hoverride : parse document env = (file.override env).bind validated := by
    rw [parse, h]
    rfl
  rw [hoverride, override]
  cases secondsIn env timeoutVariable with
  | error => rfl
  | ok timeout => cases secondsIn env delayVariable <;> rfl

/-- Of an accepted configuration both variables tell something. -/
theorem tells_of_parse (h : ofToml document = .ok file) (hparse : parse document env = .ok c) :
    ∃ timeout delay, Tells env timeoutVariable timeout ∧ Tells env delayVariable delay ∧
      (file.withDrain timeout delay).validated = .ok c := by
  rw [parse_eq h] at hparse
  cases htimeout : secondsIn env timeoutVariable with
  | error =>
    rw [htimeout] at hparse
    cases hparse
  | ok timeout =>
    cases hdelay : secondsIn env delayVariable with
    | error =>
      rw [htimeout, hdelay] at hparse
      cases hparse
    | ok delay =>
      rw [htimeout, hdelay] at hparse
      exact ⟨timeout, delay, secondsIn_eq_ok_iff.mp htimeout, secondsIn_eq_ok_iff.mp hdelay, hparse⟩

theorem parse_of_tells (h : ofToml document = .ok file)
    (htimeout : Tells env timeoutVariable timeout) (hdelay : Tells env delayVariable delay) :
    parse document env = (file.withDrain timeout delay).validated := by
  rw [parse_eq h, secondsIn_eq_ok_iff.mpr htimeout, secondsIn_eq_ok_iff.mpr hdelay]
  rfl

theorem parse_of_valid (h : ofToml document = .ok file)
    (htimeout : Tells env timeoutVariable timeout) (hdelay : Tells env delayVariable delay)
    (hvalid : (file.withDrain timeout delay).Valid) :
    parse document env = .ok (file.withDrain timeout delay) := by
  rw [parse_of_tells h htimeout hdelay]
  exact ((validated_eq _).resolve_right fun hinvalid => hinvalid.1 hvalid).2

theorem valid_of_validated (h : file.validated = .ok c) : c.Valid ∧ c = file := by
  rcases validated_eq file with ⟨hvalid, heq⟩ | ⟨-, heq⟩
  · cases heq.symm.trans h
    exact ⟨hvalid, rfl⟩
  · cases heq.symm.trans h

/-- What is accepted is valid, whatever the document is. -/
theorem valid_of_parse (hparse : parse document env = .ok c) : c.Valid := by
  cases h : ofToml document with
  | error e =>
    rw [parse, h] at hparse
    cases hparse
  | ok file =>
    obtain ⟨timeout, delay, -, -, haccepted⟩ := tells_of_parse h hparse
    exact (valid_of_validated haccepted).1

/-- **Accepted configurations.** A configuration comes of a document exactly if the variables tell
what they should and the document with what they tell is valid, and is that. Otherwise the bad
variable is told, of two the timeout, and if there is none, all rules that are broken, each once and
in their order. -/
theorem parse_outcome (h : ofToml document = .ok file) (env : Environment) :
    (∀ c, parse document env = .ok c ↔ ∃ timeout delay, Tells env timeoutVariable timeout ∧
      Tells env delayVariable delay ∧ c = file.withDrain timeout delay ∧ c.Valid) ∧
    (∀ value, IsBad env timeoutVariable value →
      parse document env = .error (.variable timeoutVariable value)) ∧
    (∀ timeout value, Tells env timeoutVariable timeout → IsBad env delayVariable value →
      parse document env = .error (.variable delayVariable value)) ∧
    ∀ timeout delay, Tells env timeoutVariable timeout → Tells env delayVariable delay →
      ¬ (file.withDrain timeout delay).Valid → ∃ rules : List Rule,
        rules.Pairwise Rule.Precedes ∧ (∀ r, r ∈ rules ↔ r.Broken (file.withDrain timeout delay)) ∧
        parse document env =
          .error (.invalid (rules.map (Rule.violation (file.withDrain timeout delay)))) := by
  refine ⟨fun c => ⟨fun hparse => ?_, ?_⟩, fun value hbad => ?_,
    fun timeout value htold hbad => ?_, ?_⟩
  · obtain ⟨timeout, delay, htimeout, hdelay, haccepted⟩ := tells_of_parse h hparse
    obtain ⟨hvalid, rfl⟩ := valid_of_validated haccepted
    exact ⟨timeout, delay, htimeout, hdelay, rfl, hvalid⟩
  · rintro ⟨timeout, delay, htimeout, hdelay, rfl, hvalid⟩
    exact parse_of_valid h htimeout hdelay hvalid
  · rw [parse_eq h, hbad.secondsIn_eq]
    rfl
  · rw [parse_eq h, secondsIn_eq_ok_iff.mpr htold, hbad.secondsIn_eq]
    rfl
  · intro timeout delay htimeout hdelay hinvalid
    obtain ⟨rules, hsorted, hmem, hviolations⟩ := exists_rules (file.withDrain timeout delay)
    refine ⟨rules, hsorted, hmem, ?_⟩
    rw [parse_of_tells h htimeout hdelay, ← hviolations]
    exact ((validated_eq _).resolve_left fun hvalid => hinvalid hvalid.1).2

/-- The environment in which one variable has a value. -/
def only (name value : String) : Environment :=
  fun other => if other = name then some value else none

/-- A variable repairs a document whose timeout is zero, and one spoils a document that is valid. -/
theorem parse_outcome_repaired :
    (∃ file, ofToml "[shutdown]\ntimeout_secs = 0" = .ok file ∧ ¬ file.Valid ∧
      parse "[shutdown]\ntimeout_secs = 0" (only timeoutVariable " +40 ") =
        .ok (file.withDrain (some 40) none)) ∧
    ofToml "" = .ok default ∧ default.Valid ∧
      ∃ rules : List Rule, Rule.delay ∈ rules ∧ parse "" (only delayVariable "0") =
        .error (.invalid (rules.map (Rule.violation (default.withDrain none (some 0))))) := by
  have hfile : (ofToml "[shutdown]\ntimeout_secs = 0").toOption =
      some (default.withDrain (some 0) none) := by decide +kernel
  refine ⟨?_, rfl, valid_default, ?_⟩
  · obtain ⟨file, hfile', heq⟩ : ∃ file, ofToml "[shutdown]\ntimeout_secs = 0" = .ok file ∧
        default.withDrain (some 0) none = file := by
      cases h : ofToml "[shutdown]\ntimeout_secs = 0" with
      | error => rw [h] at hfile; cases hfile
      | ok file => rw [h] at hfile; exact ⟨file, rfl, (Option.some.inj hfile).symm⟩
    subst heq
    refine ⟨_, hfile', fun h => absurd h.timeout (by decide), ?_⟩
    refine ((parse_outcome hfile' _).1 _).mpr ⟨some 40, none, ?_, .unset rfl, rfl, ?_⟩
    · have hblank : ∀ c ∈ [' '], Blank.isBlank c = true := List.all_eq_true.mp rfl
      have hdigits : ∀ c ∈ ['4', '0'], c.isDigit = true := List.all_eq_true.mp rfl
      exact .seconds rfl ⟨[' '], ['+', '4', '0'], [' '], ['4', '0'], rfl, hblank, hblank, .inr rfl,
        by decide, hdigits, by decide, by decide⟩
    · have htold : ∀ secs, some 40 = some secs → 1 ≤ secs := by rintro _ ⟨⟩; decide
      exact valid_default.withDrain htold nofun
  · have hdigits : ∀ c ∈ ['0'], c.isDigit = true := List.all_eq_true.mp rfl
    have hzero : Tells (only delayVariable "0") delayVariable (some 0) :=
      .seconds rfl ⟨[], ['0'], [], ['0'], rfl, nofun, nofun, .inl rfl, by decide, hdigits,
        by decide, by decide⟩
    have hempty : ofToml "" = .ok default := rfl
    obtain ⟨rules, -, hmem, hparse⟩ :=
      (parse_outcome hempty (only delayVariable "0")).2.2.2 none (some 0) (.unset rfl) hzero
        fun h => absurd (h.delay 0 rfl) (by decide)
    exact ⟨rules, (hmem _).mpr (.delay rfl), hparse⟩

end Logbook.Config
