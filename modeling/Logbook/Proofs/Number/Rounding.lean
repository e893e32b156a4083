import Mathlib.Algebra.Order.Field.Power
import Mathlib.Data.Rat.Cast.Order
import Mathlib.Tactic.FieldSimp
import Mathlib.Tactic.Linarith
import Mathlib.Tactic.NormNum
import Mathlib.Tactic.Positivity
import Mathlib.Tactic.Ring
import Logbook.Proofs.Number.Digits

/-! The shortest decimal of a double lies among the reals that round to the double, and no real
rounds to two doubles. -/

namespace Logbook.Shortest

variable {m m' : Magnitude} {tie : Tie} {ten : ℤ} {c n : ℕ} {y : ℚ}

/-! ## Quotients -/

def Ratio.value (r : Ratio) : ℚ := r.num / r.den

theorem zpow_eq_div (b : ℚ) (z : ℤ) : b ^ z = b ^ z.toNat / b ^ (-z).toNat := by
  obtain ⟨n, rfl | rfl⟩ := z.eq_nat_or_neg
  · simp
  · simp

theorem Ratio.value_scaled (n : ℕ) (two ten : ℤ) :
    (Ratio.scaled n two ten).value = n * 2 ^ two / 10 ^ ten := by
  rw [zpow_eq_div 2, zpow_eq_div 10]
  simp only [value, scaled, Nat.pow_eq, Nat.cast_mul, Nat.cast_pow, Nat.cast_ofNat]
  field_simp

theorem Ratio.den_scaled_pos (n : ℕ) (two ten : ℤ) : 0 < (Ratio.scaled n two ten).den :=
  Nat.mul_pos (Nat.pow_pos (by decide)) (Nat.pow_pos (by decide))

theorem Ratio.le_value {r : Ratio} (h : 0 < r.den) : y ≤ r.value ↔ y * r.den ≤ r.num :=
  le_div_iff₀ (Nat.cast_pos.mpr h)

theorem Ratio.value_le {r : Ratio} (h : 0 < r.den) : r.value ≤ y ↔ r.num ≤ y * r.den :=
  div_le_iff₀ (Nat.cast_pos.mpr h)

/-! ## The reals that round to a double -/

/-- A quarter of the gap to the next greater double. -/
def Magnitude.quarter (m : Magnitude) : ℚ := 2 ^ (m.exponent - 2)

def Magnitude.low (m : Magnitude) : ℚ :=
  (4 * m.mantissa - (if m.narrowBelow then 1 else 2) : ℕ) * m.quarter

def Magnitude.high (m : Magnitude) : ℚ := (4 * m.mantissa + 2 : ℕ) * m.quarter

/-- A real that rounds to a double: it is not nearer to another one, and in the middle between two
it goes to the even one. -/
def Magnitude.Rounds (m : Magnitude) (y : ℚ) : Prop :=
  if m.mantissa % 2 = 0 then m.low ≤ y ∧ y ≤ m.high else m.low < y ∧ y < m.high

theorem scaled_value (n : ℕ) (m : Magnitude) (ten : ℤ) :
    (Ratio.scaled n (m.exponent - 2) ten).value * 10 ^ ten = n * m.quarter := by
  rw [Ratio.value_scaled, div_mul_cancel₀ _ (zpow_ne_zero _ (by norm_num))]
  rfl

/-- The test of a grid point is exact. -/
theorem covers_iff : m.covers ten c = true ↔ m.Rounds (c * 10 ^ ten) := by
  have hten : (0 : ℚ) < 10 ^ ten := zpow_pos (by norm_num) _
  have hden (n : ℕ) := Ratio.den_scaled_pos n (m.exponent - 2) ten
  have le (n : ℕ) : n * m.quarter ≤ c * 10 ^ ten ↔
      (Ratio.scaled n (m.exponent - 2) ten).num ≤
        c * (Ratio.scaled n (m.exponent - 2) ten).den := by
    rw [← scaled_value n m ten, mul_le_mul_iff_left₀ hten, Ratio.value_le (hden n)]
    norm_cast
  have ge (n : ℕ) : c * 10 ^ ten ≤ n * m.quarter ↔
      c * (Ratio.scaled n (m.exponent - 2) ten).den ≤
        (Ratio.scaled n (m.exponent - 2) ten).num := by
    rw [← scaled_value n m ten, mul_le_mul_iff_left₀ hten, Ratio.le_value (hden n)]
    norm_cast
  rw [Magnitude.covers, Magnitude.Rounds, Magnitude.low, Magnitude.high]
  by_cases h : m.mantissa % 2 = 0
  · rw [if_pos h, if_pos h, decide_eq_true_iff, le, ge]
  · rw [if_neg h, if_neg h, decide_eq_true_iff]
    simp only [← not_le, le, ge]

theorem covers_of_gridPoint? (h : gridPoint? tie m ten = some c) : m.covers ten c = true := by
  unfold gridPoint? at h
  dsimp only at h
  split at h
  · split at h <;> cases h <;> assumption
  · cases h; assumption
  · cases h; assumption
  · cases h

/-- The grid point below the value is taken into account. -/
theorem isSome_gridPoint? {value : Ratio}
    (hvalue : value = Ratio.scaled (4 * m.mantissa) (m.exponent - 2) ten)
    (h : m.covers ten (value.num / value.den) = true) : (gridPoint? tie m ten).isSome = true := by
  subst hvalue
  unfold gridPoint?
  dsimp only
  rw [h]
  split
  · split <;> rfl
  · rfl
  · next heq _ => cases heq
  · next heq _ => cases heq

/-! ## Enough digits -/

/-- The magnitudes that stand for doubles: 53 bits, all of them used unless the exponent is the
least. -/
structure Magnitude.Valid (m : Magnitude) : Prop where
  mantissa_lt : m.mantissa < 2 ^ 53
  exponent_ge : -1074 ≤ m.exponent
  normal : m.mantissa < 2 ^ 52 → m.exponent = -1074
  narrowBelow : m.narrowBelow = true ↔ m.mantissa = 2 ^ 52 ∧ m.exponent ≠ -1074

def Magnitude.value (m : Magnitude) : ℚ := 4 * m.mantissa * m.quarter

theorem quarter_pos (m : Magnitude) : 0 < m.quarter := zpow_pos (by norm_num) _

theorem length_digitsOf (n : ℕ) : (digitsOf n).length = (Nat.toDigits 10 n).length :=
  List.length_map _

/-- A positive number is at least the power of ten at its first digit. -/
theorem pow_length_digitsOf_le (h : 0 < n) : 10 ^ ((digitsOf n).length - 1) ≤ n := by
  rw [length_digitsOf]
  by_contra hlt
  rw [not_le] at hlt
  have hpos := Nat.length_toDigits_pos (b := 10) (n := n)
  rcases Nat.lt_or_ge 1 (Nat.toDigits 10 n).length with hlong | hshort
  · have := (Nat.length_toDigits_le_iff (by decide) (by omega)).mpr hlt
    omega
  · rw [show (Nat.toDigits 10 n).length - 1 = 0 by omega] at hlt
    omega

theorem value_eq (m : Magnitude) : m.value = m.mantissa * 2 ^ m.exponent := by
  rw [Magnitude.value, Magnitude.quarter, zpow_sub₀ two_ne_zero]
  ring

/-- No positive double is below `10 ^ -400`. -/
theorem one_le_value (hm : m.Valid) (hpos : 0 < m.mantissa) : 1 ≤ m.value * 10 ^ 400 := by
  have hmantissa : (1 : ℚ) ≤ m.mantissa := by exact_mod_cast hpos
  have hpow : (2 : ℚ) ^ (-1074 : ℤ) ≤ 2 ^ m.exponent :=
    zpow_le_zpow_right₀ (by norm_num) hm.exponent_ge
  have hleast : (1 : ℚ) ≤ 2 ^ (-1074 : ℤ) * 10 ^ 400 := by
    rw [zpow_neg, inv_mul_eq_div, one_le_div (by positivity)]
    calc (2 : ℚ) ^ (1074 : ℤ) ≤ 2 ^ (1200 : ℤ) := zpow_le_zpow_right₀ (by norm_num) (by norm_num)
      _ = (2 ^ 3) ^ 400 := by rw [← pow_mul]; exact zpow_natCast 2 1200
      _ ≤ 10 ^ 400 := pow_le_pow_left₀ (by norm_num) (by norm_num) 400
  calc (1 : ℚ) ≤ 2 ^ (-1074 : ℤ) * 10 ^ 400 := hleast
    _ ≤ m.value * 10 ^ 400 := by
      rw [value_eq]
      refine mul_le_mul_of_nonneg_right (hpow.trans ?_) (by norm_num)
      exact le_mul_of_one_le_left (zpow_pos (by norm_num) _).le hmantissa

/-- The leading exponent is not too great. -/
theorem pow_leadingExponent_le (hm : m.Valid) (hpos : 0 < m.mantissa) :
    (10 : ℚ) ^ leadingExponent m ≤ m.value := by
  let r := Ratio.scaled m.mantissa m.exponent (-400)
  have hden : 0 < r.den := Ratio.den_scaled_pos _ _ _
  have hvalue : r.value = m.value * 10 ^ 400 := by
    rw [value_eq, Ratio.value_scaled, zpow_neg, div_inv_eq_mul]
    norm_cast
  have hwhole : 0 < r.num / r.den := by
    refine Nat.div_pos ?_ hden
    have hone := one_le_value hm hpos
    rw [← hvalue, Ratio.le_value hden, one_mul] at hone
    exact_mod_cast hone
  have hbelow : ((r.num / r.den : ℕ) : ℚ) ≤ r.value := by
    rw [Ratio.le_value hden]
    exact_mod_cast Nat.div_mul_le_self _ _
  have hdigits : (10 : ℚ) ^ ((digitsOf (r.num / r.den)).length - 1) ≤ (r.num / r.den : ℕ) := by
    exact_mod_cast pow_length_digitsOf_le hwhole
  have hlead : (10 : ℚ) ^ leadingExponent m =
      10 ^ ((digitsOf (r.num / r.den)).length - 1) / 10 ^ 400 := by
    have hlength : 0 < (digitsOf (r.num / r.den)).length := by
      rw [length_digitsOf]
      exact Nat.length_toDigits_pos
    rw [show leadingExponent m = ((digitsOf (r.num / r.den)).length - 1 : ℕ) - (400 : ℕ) by
      change ((digitsOf (r.num / r.den)).length : ℤ) - 401 = _
      omega, zpow_sub₀ (by norm_num), zpow_natCast, zpow_natCast]
  rw [hlead, div_le_iff₀ (by norm_num), ← hvalue]
  exact hdigits.trans hbelow

/-- A grid eighteen digits below the leading one has a point among the reals that round to the
value. -/
theorem covers_below {value : Ratio} (hm : m.Valid) (hpos : 0 < m.mantissa)
    (hten : ten = leadingExponent m - 17)
    (hvalue : value = Ratio.scaled (4 * m.mantissa) (m.exponent - 2) ten) :
    m.covers ten (value.num / value.den) = true := by
  have hpow : (0 : ℚ) < 10 ^ ten := zpow_pos (by norm_num) _
  have hquarter := quarter_pos m
  have hden : 0 < value.den := hvalue ▸ Ratio.den_scaled_pos _ _ _
  have hscaled : value.value * 10 ^ ten = m.value := by
    rw [hvalue, scaled_value, Magnitude.value]
    norm_cast
  /- The grid is finer than a quarter of the gap, because `10 ^ 17` is more than `2 ^ 55`. -/
  have hfine : (10 : ℚ) ^ ten < m.quarter := by
    have hlead := pow_leadingExponent_le hm hpos
    have hmantissa : (m.mantissa : ℚ) < 2 ^ 53 := by exact_mod_cast hm.mantissa_lt
    rw [hten, zpow_sub₀ (by norm_num)]
    rw [Magnitude.value] at hlead
    rw [div_lt_iff₀ (by norm_num)]
    refine hlead.trans_lt ?_
    norm_num
    nlinarith
  have hle : ((value.num / value.den : ℕ) : ℚ) * 10 ^ ten ≤ m.value := by
    rw [← hscaled, mul_le_mul_iff_left₀ hpow, Ratio.le_value hden]
    exact_mod_cast Nat.div_mul_le_self _ _
  have hlt : m.value < ((value.num / value.den : ℕ) : ℚ) * 10 ^ ten + 10 ^ ten := by
    have habove : value.num < (value.num / value.den + 1) * value.den := by
      rw [mul_comm]
      exact Nat.lt_mul_div_succ _ hden
    rw [← hscaled, ← add_one_mul, mul_lt_mul_iff_left₀ hpow, Ratio.value,
      div_lt_iff₀ (Nat.cast_pos.mpr hden)]
    exact_mod_cast habove
  have hlow : m.low < ((value.num / value.den : ℕ) : ℚ) * 10 ^ ten := by
    have hbound : m.low ≤ m.value - m.quarter := by
      have hmantissa : 1 ≤ 4 * m.mantissa := by omega
      have hwhole : 4 * m.mantissa - (if m.narrowBelow then 1 else 2) ≤ 4 * m.mantissa - 1 := by
        split <;> omega
      have hcast :
          ((4 * m.mantissa - (if m.narrowBelow then 1 else 2) : ℕ) : ℚ) ≤ 4 * m.mantissa - 1 := by
        calc _ ≤ ((4 * m.mantissa - 1 : ℕ) : ℚ) := by exact_mod_cast hwhole
          _ = 4 * m.mantissa - 1 := by rw [Nat.cast_sub hmantissa]; push_cast; ring
      rw [Magnitude.low, Magnitude.value]
      nlinarith
    linarith
  have hhigh : ((value.num / value.den : ℕ) : ℚ) * 10 ^ ten < m.high := by
    rw [Magnitude.high]
    push_cast
    rw [Magnitude.value] at hle
    nlinarith
  rw [covers_iff, Magnitude.Rounds]
  split
  · exact ⟨hlow.le, hhigh.le⟩
  · exact ⟨hlow, hhigh⟩

/-! ## The shortest decimal -/

def Decimal.value (d : Decimal) : ℚ :=
  Digits.ofDigits 10 d.digits * 10 ^ (d.exponent + 1 - d.digits.length)

/-- A grid point without its zeros at the end is the same number. -/
theorem value_trimZeros (c : ℕ) (ten : ℤ) :
    Decimal.value ⟨trimZeros (digitsOf c), ten + ((digitsOf c).length - 1 : ℕ)⟩ = c * 10 ^ ten := by
  obtain ⟨count, hdigits⟩ := trimZeros_append (digitsOf c)
  have hvalue : c = Digits.ofDigits 10 (trimZeros (digitsOf c)) * 10 ^ count := by
    have happend := Digits.ofDigits_append (trimZeros (digitsOf c)) (List.replicate count 0)
    rwa [← hdigits, ofDigits_digitsOf, Digits.ofDigits_replicate_zero, List.length_replicate,
      Nat.add_zero] at happend
  have hlength : (digitsOf c).length = (trimZeros (digitsOf c)).length + count := by
    have := congrArg List.length hdigits
    rwa [List.length_append, List.length_replicate] at this
  have hpos : 0 < (digitsOf c).length := by
    rw [length_digitsOf]
    exact Nat.length_toDigits_pos
  have hexponent : ten + ((digitsOf c).length - 1 : ℕ) + 1 - (trimZeros (digitsOf c)).length =
      count + ten := by omega
  rw [Decimal.value, hexponent, zpow_add₀ (by norm_num), zpow_natCast, ← mul_assoc]
  congr 1
  exact_mod_cast hvalue.symm

theorem shortest_of_zero (h : m.mantissa = 0) : shortest tie m = ⟨[0], 0⟩ := if_pos h

/-- The shortest decimal is a grid point that rounds to the value. -/
theorem shortest_eq (hm : m.Valid) (hpos : 0 < m.mantissa) (tie : Tie) : ∃ c ten,
    m.covers ten c = true ∧
      shortest tie m = ⟨trimZeros (digitsOf c), ten + ((digitsOf c).length - 1 : ℕ)⟩ := by
  rw [shortest, if_neg (Nat.ne_of_gt hpos)]
  dsimp only
  set grid := fun count : ℕ => (gridPoint? tie m (leadingExponent m - count)).map fun point =>
    (⟨trimZeros (digitsOf point),
      leadingExponent m - count + ((digitsOf point).length - 1 : ℕ)⟩ : Decimal) with hgrid
  have hsome : ((List.range 18).findSome? grid).isSome = true := by
    have hpoint : (gridPoint? tie m (leadingExponent m - 17)).isSome = true :=
      isSome_gridPoint? rfl (covers_below hm hpos rfl rfl)
    exact List.findSome?_isSome_iff.mpr
      ⟨17, List.mem_range.mpr (by decide), Option.isSome_map.trans hpoint⟩
  obtain ⟨d, hd⟩ := Option.isSome_iff_exists.mp hsome
  obtain ⟨count, -, hcount⟩ := List.exists_of_findSome?_eq_some hd
  obtain ⟨c, hpoint, rfl⟩ := Option.map_eq_some_iff.mp hcount
  exact ⟨c, _, covers_of_gridPoint? hpoint, by rw [hd]; rfl⟩

/-- **The shortest decimal rounds to the double.** -/
theorem rounds_shortest (hm : m.Valid) (tie : Tie) : m.Rounds (shortest tie m).value := by
  rcases Nat.eq_zero_or_pos m.mantissa with hzero | hpos
  · have hvalue : (shortest tie m).value = 0 := by
      rw [shortest_of_zero hzero]
      exact zero_mul _
    have hquarter := quarter_pos m
    rw [hvalue, Magnitude.Rounds, hzero, if_pos (Nat.zero_mod 2), Magnitude.low, Magnitude.high,
      hzero]
    exact ⟨by simp, by positivity⟩
  · obtain ⟨c, ten, hcovers, hshortest⟩ := shortest_eq hm hpos tie
    rw [hshortest, value_trimZeros]
    exact covers_iff.mp hcovers

theorem lt_ten_of_mem_shortest (hm : m.Valid) (tie : Tie) {d : ℕ}
    (h : d ∈ (shortest tie m).digits) :
    d < 10 := by
  rcases Nat.eq_zero_or_pos m.mantissa with hzero | hpos
  · rw [shortest_of_zero hzero, List.mem_singleton] at h
    omega
  · obtain ⟨c, ten, -, hshortest⟩ := shortest_eq hm hpos tie
    rw [hshortest] at h
    obtain ⟨count, hdigits⟩ := trimZeros_append (digitsOf c)
    refine lt_ten_of_mem_digitsOf (n := c) ?_
    rw [hdigits]
    exact List.mem_append_left _ h

/-! ## One double for each real -/

/-- The reals that round to a smaller double end before those that round to a greater one begin;
where they meet, one of the two is odd. -/
theorem high_le_low (hm : m.Valid) (hm' : m'.Valid)
    (h : m.exponent < m'.exponent ∨ m.exponent = m'.exponent ∧ m.mantissa < m'.mantissa) :
    m.high < m'.low ∨ m.high = m'.low ∧ (m.mantissa % 2 = 1 ∨ m'.mantissa % 2 = 1) := by
  have hquarter := quarter_pos m
  have hlt := hm.mantissa_lt
  have hge := hm.exponent_ge
  rcases h with h | ⟨heq, h⟩
  · /- The gap doubles at least, and the mantissa of the greater one has all bits. -/
    have hfull : 2 ^ 52 ≤ m'.mantissa := by
      by_contra hsmall
      have := hm'.normal (not_le.mp hsmall)
      omega
    have hdouble : 2 * m.quarter ≤ m'.quarter := by
      rw [Magnitude.quarter, Magnitude.quarter, ← zpow_one_add₀ two_ne_zero]
      exact zpow_le_zpow_right₀ (by norm_num) (by omega)
    have hmantissa : 2 ^ 54 - 1 ≤ 4 * m'.mantissa - (if m'.narrowBelow then 1 else 2) := by
      rcases Nat.eq_or_lt_of_le hfull with heq | hgreater
      · rw [if_pos (hm'.narrowBelow.mpr ⟨heq.symm, by omega⟩)]
        omega
      · split <;> omega
    have hlow : ((2 ^ 55 - 2 : ℕ) : ℚ) * m.quarter ≤ m'.low := by
      calc ((2 ^ 55 - 2 : ℕ) : ℚ) * m.quarter = (2 ^ 54 - 1 : ℕ) * (2 * m.quarter) := by
            norm_num
            ring
        _ ≤ m'.low :=
          mul_le_mul (Nat.cast_le.mpr hmantissa) hdouble (by positivity) (Nat.cast_nonneg _)
    rcases Nat.lt_or_ge m.mantissa (2 ^ 53 - 1) with hsmall | hgreat
    · have hhigh : 4 * m.mantissa + 2 < 2 ^ 55 - 2 := by omega
      exact .inl ((mul_lt_mul_of_pos_right (Nat.cast_lt.mpr hhigh) hquarter).trans_le hlow)
    · have hhigh : m.high ≤ m'.low := by
        rw [Magnitude.high, show 4 * m.mantissa + 2 = 2 ^ 55 - 2 by omega]
        exact hlow
      exact hhigh.lt_or_eq.imp_right fun heq => ⟨heq, .inl (by omega)⟩
  · have hwide : m'.narrowBelow = false := by
      refine Bool.eq_false_iff.mpr fun hnarrow => ?_
      obtain ⟨hmantissa, hexponent⟩ := hm'.narrowBelow.mp hnarrow
      exact hexponent (heq ▸ hm.normal (by omega))
    have hlow : m'.low = (4 * m'.mantissa - 2 : ℕ) * m.quarter := by
      rw [Magnitude.low, hwide, if_neg Bool.false_ne_true, Magnitude.quarter, Magnitude.quarter,
        heq]
    rcases Nat.lt_or_ge (m.mantissa + 1) m'.mantissa with hgap | hnext
    · have hhigh : 4 * m.mantissa + 2 < 4 * m'.mantissa - 2 := by omega
      rw [hlow]
      exact .inl (mul_lt_mul_of_pos_right (Nat.cast_lt.mpr hhigh) hquarter)
    · have hhigh : m.high = m'.low := by
        rw [hlow, Magnitude.high, show 4 * m.mantissa + 2 = 4 * m'.mantissa - 2 by omega]
      exact .inr ⟨hhigh, by omega⟩

/-- Nothing rounds to a smaller double and to a greater one. -/
theorem not_rounds_of_lt (hm : m.Valid) (hm' : m'.Valid)
    (h : m.exponent < m'.exponent ∨ m.exponent = m'.exponent ∧ m.mantissa < m'.mantissa)
    (hy : m.Rounds y) (hy' : m'.Rounds y) : False := by
  unfold Magnitude.Rounds at hy hy'
  have hle : y ≤ m.high := by
    split at hy
    · exact hy.2
    · exact hy.2.le
  have hge : m'.low ≤ y := by
    split at hy'
    · exact hy'.1
    · exact hy'.1.le
  rcases high_le_low hm hm' h with hlt | ⟨heq, hodd | hodd⟩
  · linarith
  · rw [if_neg (by omega)] at hy
    linarith
  · rw [if_neg (by omega)] at hy'
    linarith

/-- **No real rounds to two doubles.** -/
theorem Magnitude.Rounds.inj (hy : m.Rounds y) (hy' : m'.Rounds y) (hm : m.Valid) (hm' : m'.Valid) :
    m = m' := by
  have hexponent : m.exponent = m'.exponent := by
    rcases lt_trichotomy m.exponent m'.exponent with h | h | h
    · exact (not_rounds_of_lt hm hm' (.inl h) hy hy').elim
    · exact h
    · exact (not_rounds_of_lt hm' hm (.inl h) hy' hy).elim
  have hmantissa : m.mantissa = m'.mantissa := by
    rcases lt_trichotomy m.mantissa m'.mantissa with h | h | h
    · exact (not_rounds_of_lt hm hm' (.inr ⟨hexponent, h⟩) hy hy').elim
    · exact h
    · exact (not_rounds_of_lt hm' hm (.inr ⟨hexponent.symm, h⟩) hy' hy).elim
  have hnarrow : m.narrowBelow = m'.narrowBelow := by
    rw [Bool.eq_iff_iff, hm.narrowBelow, hm'.narrowBelow, hmantissa, hexponent]
  cases m
  cases m'
  cases hexponent
  cases hmantissa
  cases hnarrow
  rfl

/-! ## Bits -/

variable {bits bits' : ℕ} {negative : Bool}

theorem valid_of_ofBits (h : ofBits bits = .finite negative m) : m.Valid := by
  unfold ofBits at h
  simp only [Nat.pow_eq] at h
  have hbiased : bits / 2 ^ 52 % 2 ^ 11 < 2 ^ 11 := Nat.mod_lt _ (by decide)
  have hfraction : bits % 2 ^ 52 < 2 ^ 52 := Nat.mod_lt _ (by decide)
  generalize bits / 2 ^ 52 % 2 ^ 11 = biased at h hbiased
  generalize bits % 2 ^ 52 = fraction at h hfraction
  split at h
  · split at h <;> cases h
  · split at h
    · cases h
      exact ⟨by dsimp only; omega, le_rfl, fun _ => rfl, ⟨nofun, fun h => (h.2 rfl).elim⟩⟩
    · cases h
      refine ⟨by dsimp only; omega, by dsimp only; omega, fun h => by dsimp only at h; omega, ?_⟩
      rw [decide_eq_true_iff]
      dsimp only
      omega

/-- The bits of a finite double, from what they stand for. -/
theorem bits_eq (hb : bits < 2 ^ 64) (h : ofBits bits = .finite negative m) :
    bits = negative.toNat * 2 ^ 63 +
      (if m.mantissa < 2 ^ 52 then m.mantissa
        else (m.exponent + 1075).toNat * 2 ^ 52 + (m.mantissa - 2 ^ 52)) := by
  unfold ofBits at h
  simp only [Nat.pow_eq] at h
  have hsign : (decide (bits / 2 ^ 63 % 2 = 1)).toNat = bits / 2 ^ 63 % 2 := by
    by_cases hbit : bits / 2 ^ 63 % 2 = 1
    · rw [decide_eq_true hbit, hbit, Bool.toNat_true]
    · rw [decide_eq_false hbit, Bool.toNat_false]
      omega
  have hfraction : bits % 2 ^ 52 < 2 ^ 52 := Nat.mod_lt _ (by decide)
  split at h
  · split at h <;> cases h
  · split at h
    · cases h
      rw [hsign, if_pos hfraction]
      dsimp only
      omega
    · cases h
      rw [hsign, if_neg (by dsimp only; omega)]
      dsimp only
      omega

theorem ofBits_inj (hb : bits < 2 ^ 64) (hb' : bits' < 2 ^ 64)
    (h : ofBits bits = .finite negative m)
    (h' : ofBits bits' = .finite negative m) : bits = bits' :=
  (bits_eq hb h).trans (bits_eq hb' h').symm

end Logbook.Shortest
