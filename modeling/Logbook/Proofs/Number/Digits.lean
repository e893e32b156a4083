import Mathlib.Data.List.Basic
import Mathlib.Tactic.Ring
import Logbook.Number.Decimal

/-! The number that digits denote: digits behind each other, zeros at the end, and digits as they
are written. -/

namespace Logbook

namespace Digits

variable {ds es : List Nat} {n : Nat}

theorem foldl_eq (ds : List Nat) (n : Nat) :
    ds.foldl (fun n d => n * 10 + d) n = n * 10 ^ ds.length + ofDigits 10 ds := by
  induction ds generalizing n with
  | nil => simp [ofDigits]
  | cons d ds ih =>
    rw [ofDigits, List.foldl_cons, ih, List.foldl_cons, ih, List.length_cons, Nat.pow_succ]
    ring

theorem ofDigits_append (ds es : List Nat) :
    ofDigits 10 (ds ++ es) = ofDigits 10 ds * 10 ^ es.length + ofDigits 10 es := by
  rw [ofDigits, List.foldl_append, foldl_eq, ← ofDigits]

theorem ofDigits_replicate_zero (n : Nat) : ofDigits 10 (List.replicate n 0) = 0 := by
  induction n with
  | zero => rfl
  | succ n ih => exact ih

/-- Digits as they are written. -/
theorem ofDigitChars_eq_foldl (text : List Char) (n : Nat) : Nat.ofDigitChars 10 text n =
    (text.map fun c => c.toNat - '0'.toNat).foldl (fun n d => n * 10 + d) n := by
  rw [Nat.ofDigitChars_eq_foldl, List.foldl_map]
  simp only [mul_comm]

theorem ofDigitChars_eq (text : List Char) :
    Nat.ofDigitChars 10 text 0 = ofDigits 10 (text.map fun c => c.toNat - '0'.toNat) :=
  ofDigitChars_eq_foldl text 0

theorem digit_lt {c : Char} (h : c.isDigit = true) : c.toNat - '0'.toNat < 10 := by
  obtain ⟨-, h⟩ := Char.isDigit_iff_toNat.mp h
  change c.toNat ≤ 57 at h
  change c.toNat - 48 < 10
  omega

/-- So many digits denote less than that power of ten. -/
theorem ofDigitChars_lt {text : List Char} (h : ∀ c ∈ text, c.isDigit = true) :
    Nat.ofDigitChars 10 text 0 < 10 ^ text.length := by
  induction text with
  | nil => exact Nat.zero_lt_one
  | cons c text ih =>
    have hdigit := digit_lt (h c (.head _))
    have htext := ih fun c hc => h c (.tail _ hc)
    rw [Nat.ofDigitChars_cons, Nat.ofDigitChars_eq_ofDigitChars_zero, List.length_cons,
      Nat.pow_succ]
    calc 10 ^ text.length * (10 * 0 + (c.toNat - '0'.toNat)) + Nat.ofDigitChars 10 text 0
        < 10 ^ text.length * (10 * 0 + (c.toNat - '0'.toNat)) + 10 ^ text.length := by omega
      _ = 10 ^ text.length * (c.toNat - '0'.toNat + 1) := by ring
      _ ≤ 10 ^ text.length * 10 := Nat.mul_le_mul_left _ hdigit

end Digits

namespace Decimal

variable {ds : List Nat}

theorem toNat_digit {d : Nat} (h : d < 10) :
    (Char.ofNat ('0'.toNat + d)).toNat - '0'.toNat = d := by
  revert d
  decide

theorem isDigit_digit {d : Nat} (h : d < 10) : (Char.ofNat ('0'.toNat + d)).isDigit = true := by
  revert d
  decide

theorem isDigit_of_mem_digitChars (h : ∀ d ∈ ds, d < 10) :
    ∀ c ∈ digitChars ds, c.isDigit = true := by
  intro c hc
  obtain ⟨d, hd, rfl⟩ := List.mem_map.mp hc
  exact isDigit_digit (h d hd)

/-- Written digits are read as the same digits. -/
theorem digitChars_toNat (h : ∀ d ∈ ds, d < 10) :
    (digitChars ds).map (fun c => c.toNat - '0'.toNat) = ds := by
  rw [digitChars, List.map_map]
  exact (List.map_congr_left fun d hd => toNat_digit (h d hd)).trans (List.map_id ds)

end Decimal

namespace Shortest

theorem lt_ten_of_mem_digitsOf {n d : Nat} (h : d ∈ digitsOf n) : d < 10 := by
  obtain ⟨c, hc, rfl⟩ := List.mem_map.mp h
  have hdigit : 48 ≤ c.toNat ∧ c.toNat ≤ 57 := by
    simpa [Char.isDigit, UInt32.le_iff_toNat_le] using
      Nat.isDigit_of_mem_toDigits (by decide) (by decide) hc
  change c.toNat - 48 < 10
  omega

/-- The digits of a number denote it. -/
theorem ofDigits_digitsOf (n : Nat) : Digits.ofDigits 10 (digitsOf n) = n := by
  rw [digitsOf, ← Digits.ofDigitChars_eq, Nat.ofDigitChars_ten_toDigits]

/-- What is trimmed are zeros. -/
theorem trimZeros_append (ds : List Nat) :
    ∃ count, ds = trimZeros ds ++ List.replicate count 0 := by
  refine ⟨(ds.reverse.takeWhile (· = 0)).length, ?_⟩
  have hzeros : (ds.reverse.takeWhile (· = 0)).reverse =
      List.replicate (ds.reverse.takeWhile (· = 0)).length 0 := by
    refine List.eq_replicate_iff.mpr ⟨List.length_reverse, fun d hd => ?_⟩
    have hzero := List.all_eq_true.mp List.all_takeWhile d (List.mem_reverse.mp hd)
    exact of_decide_eq_true hzero
  rw [← hzeros, trimZeros, ← List.reverse_append, List.takeWhile_append_dropWhile,
    List.reverse_reverse]

end Shortest

end Logbook
