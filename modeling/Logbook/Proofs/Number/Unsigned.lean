import Logbook.Proofs.Number.Digits
import Logbook.Proofs.Number.Hexadecimal

/-! What the reader of unsigned numerals takes: an optional plus sign and digits, of which there is
at least one, with a value below the limit. Stated for any set of digits, then for decimal and for
hexadecimal ones. -/

namespace Logbook.Digits

variable {radix limit n : Nat} {text : List Char} {c : Char}

/-! ## Any digits -/

section Digit

variable {isDigit : Char → Bool} {value : Char → Nat}

theorem mapM_digit?_eq (hdigit : ∀ c, digit? radix c = if isDigit c then some (value c) else none)
    (text : List Char) : text.mapM (digit? radix) =
      if text.all isDigit then some (text.map value) else none := by
  induction text with
  | nil => rfl
  | cons c text ih =>
    rw [List.mapM_cons, hdigit, ih, List.all_cons]
    cases isDigit c <;> cases text.all isDigit <;> rfl

theorem unsigned?_eq_some_iff
    (hdigit : ∀ c, digit? radix c = if isDigit c then some (value c) else none) :
    unsigned? radix text = some n ↔
      text ≠ [] ∧ (∀ c ∈ text, isDigit c = true) ∧ ofDigits radix (text.map value) = n := by
  rw [unsigned?, mapM_digit?_eq hdigit, ← List.all_eq_true]
  cases text with
  | nil => simp
  | cons c text => cases (c :: text).all isDigit <;> simp

/-- Digits in front of which a plus sign may have been dropped; the sign is no digit. -/
theorem dropPlus_eq_iff (hplus : isDigit '+' = false) {digits : List Char} (hne : digits ≠ [])
    (hall : ∀ c ∈ digits, isDigit c = true) :
    dropPlus text = digits ↔ text = digits ∨ text = '+' :: digits := by
  constructor
  · rintro rfl
    unfold dropPlus
    split
    · exact .inr rfl
    · exact .inl rfl
  · rintro (rfl | rfl)
    · obtain ⟨c, digits, rfl⟩ := List.exists_cons_of_ne_nil hne
      refine dropPlus.eq_2 _ fun rest heq => ?_
      have hc := hall c (.head _)
      rw [(List.cons.inj heq).1, hplus] at hc
      cases hc
    · rfl

theorem read?_eq_some_iff
    (hdigit : ∀ c, digit? radix c = if isDigit c then some (value c) else none)
    (hplus : isDigit '+' = false) : read? radix limit text = some n ↔
      ∃ digits, (text = digits ∨ text = '+' :: digits) ∧ digits ≠ [] ∧
        (∀ c ∈ digits, isDigit c = true) ∧ ofDigits radix (digits.map value) = n ∧ n < limit := by
  rw [read?, Option.filter_eq_some_iff, unsigned?_eq_some_iff hdigit, decide_eq_true_iff]
  constructor
  · rintro ⟨⟨hne, hall, hvalue⟩, hlt⟩
    exact ⟨_, (dropPlus_eq_iff hplus hne hall).mp rfl, hne, hall, hvalue, hlt⟩
  · rintro ⟨digits, htext, hne, hall, hvalue, hlt⟩
    rw [(dropPlus_eq_iff hplus hne hall).mpr htext]
    exact ⟨⟨hne, hall, hvalue⟩, hlt⟩

end Digit

/-! ## Decimal and hexadecimal digits -/

theorem char_le_iff {d : Char} : c ≤ d ↔ c.toNat ≤ d.toNat := UInt32.le_iff_toNat_le

theorem isDigit_iff : c.isDigit = true ↔ '0' ≤ c ∧ c ≤ '9' := by
  simp only [Char.isDigit, ge_iff_le, Bool.and_eq_true, decide_eq_true_eq, Char.le_def]

theorem isLower_iff : c.isLower = true ↔ 'a' ≤ c ∧ c ≤ 'z' :=
  Bool.and_eq_true_iff.trans (and_congr decide_eq_true_iff decide_eq_true_iff)

theorem isHexDigit_iff : c.isHexDigit = true ↔
    ('0' ≤ c ∧ c ≤ '9') ∨ ('a' ≤ c ∧ c ≤ 'f') ∨ ('A' ≤ c ∧ c ≤ 'F') := by
  simp only [Char.isHexDigit, Char.isDigit, ge_iff_le, Bool.or_eq_true, Bool.and_eq_true,
    decide_eq_true_eq, or_assoc, Char.le_def]

/-- The number that a hexadecimal digit of either case stands for. -/
def hexValue (c : Char) : Nat :=
  if c.isDigit then c.toNat - '0'.toNat
  else if c.isLower then c.toNat - 'a'.toNat + 10
  else c.toNat - 'A'.toNat + 10

theorem digit?_ten (c : Char) :
    digit? 10 c = if c.isDigit then some (c.toNat - '0'.toNat) else none := by
  simp only [digit?, value?, isDigit_iff, char_le_iff, Char.reduceToNat]
  by_cases hdigit : 48 ≤ c.toNat ∧ c.toNat ≤ 57
  · rw [if_pos hdigit, if_pos hdigit]
    exact Option.filter_some_pos (decide_eq_true (by omega))
  · rw [if_neg hdigit, if_neg hdigit]
    -- a letter stands for ten at least
    split
    · exact Option.filter_some_neg (decide_eq_false (by omega))
    · split
      · exact Option.filter_some_neg (decide_eq_false (by omega))
      · rfl

theorem digit?_sixteen (c : Char) :
    digit? 16 c = if c.isHexDigit then some (hexValue c) else none := by
  simp only [digit?, value?, hexValue, isHexDigit_iff, isDigit_iff, isLower_iff, char_le_iff,
    Char.reduceToNat]
  by_cases hdigit : 48 ≤ c.toNat ∧ c.toNat ≤ 57
  · rw [if_pos hdigit, if_pos hdigit, if_pos (.inl hdigit)]
    exact Option.filter_some_pos (decide_eq_true (by omega))
  · by_cases hlower : 97 ≤ c.toNat ∧ c.toNat ≤ 122
    · rw [if_neg hdigit, if_neg hdigit, if_pos hlower, if_pos hlower, Option.filter_some]
      exact if_congr (decide_eq_true_iff.trans (by omega)) rfl rfl
    · rw [if_neg hdigit, if_neg hdigit, if_neg hlower, if_neg hlower]
      split
      · rw [Option.filter_some]
        exact if_congr (decide_eq_true_iff.trans (by omega)) rfl rfl
      · rw [if_neg (by omega)]
        rfl

/-- A decimal numeral, with its value as digits are written. -/
theorem read?_ten_eq_some_iff : read? 10 limit text = some n ↔
    ∃ digits, (text = digits ∨ text = '+' :: digits) ∧ digits ≠ [] ∧
      (∀ c ∈ digits, c.isDigit = true) ∧ Nat.ofDigitChars 10 digits 0 = n ∧ n < limit := by
  simp only [read?_eq_some_iff digit?_ten (by decide), ofDigitChars_eq]

theorem read?_sixteen_eq_some_iff : read? 16 limit text = some n ↔
    ∃ digits, (text = digits ∨ text = '+' :: digits) ∧ digits ≠ [] ∧
      (∀ c ∈ digits, c.isHexDigit = true) ∧ ofDigits 16 (digits.map hexValue) = n ∧ n < limit :=
  read?_eq_some_iff digit?_sixteen (by decide)

/-! ## Values and widths -/

theorem ofDigits_lt {radix : Nat} {ds : List Nat} (h : ∀ d ∈ ds, d < radix) :
    ofDigits radix ds < radix ^ ds.length := by
  induction ds using List.reverseRecOn with
  | nil => exact Nat.zero_lt_one
  | append_singleton ds d ih =>
    have hds := ih fun e he => h e (List.mem_append_left _ he)
    have hd := h d List.mem_concat_self
    rw [ofDigits_concat, List.length_append, List.length_singleton, Nat.pow_succ]
    calc ofDigits radix ds * radix + d < ofDigits radix ds * radix + radix := by omega
      _ = (ofDigits radix ds + 1) * radix := by rw [Nat.succ_mul]
      _ ≤ radix ^ ds.length * radix := Nat.mul_le_mul_right radix hds

theorem digit?_eq_hexValue (h : c.isHexDigit = true) : digit? 16 c = some (hexValue c) := by
  rw [digit?_sixteen, if_pos h]

theorem hexValue_lt (h : c.isHexDigit = true) : hexValue c < 16 :=
  of_decide_eq_true (Option.filter_eq_some_iff.mp (digit?_eq_hexValue h)).2

theorem utf8Size_of_isHexDigit (h : c.isHexDigit = true) : c.utf8Size = 1 := by
  refine Utf8.utf8Size_of_ascii ?_
  simp only [isHexDigit_iff, char_le_iff, Char.reduceToNat] at h
  omega

end Logbook.Digits
