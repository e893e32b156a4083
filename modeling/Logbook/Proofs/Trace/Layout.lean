import Mathlib.Data.List.Lex
import Mathlib.Data.Nat.Basic
import Logbook.Proofs.Number.Hexadecimal
import Logbook.Trace.Census

/-! What an identifier tells of the millisecond, the machine and the counter that it is made from:
their remainders at the width of each part, in an order that the bytes of the text keep. -/

namespace Logbook.Trace.Id

open Digits

variable {k m n b millis machine count millis' machine' count' : Nat}

/-! ## The lowest bytes of a number -/

theorem length_lowBytes (k n : Nat) : (lowBytes k n).length = k := by
  induction k with
  | zero => rfl
  | succ k ih => rw [lowBytes, List.length_cons, ih]

theorem lt_of_mem_lowBytes (h : b ∈ lowBytes k n) : b < 256 := by
  induction k with
  | zero => cases h
  | succ k ih =>
    rcases List.mem_cons.mp h with rfl | h
    · exact Nat.mod_lt _ (by decide)
    · exact ih h

/-- They are the base 256 digits of what is left of the number. -/
theorem ofDigits_lowBytes (k n : Nat) : ofDigits 256 (lowBytes k n) = n % 256 ^ k := by
  have hfold (k start : Nat) : (lowBytes k n).foldl (fun n d => n * 256 + d) start =
      start * 256 ^ k + n % 256 ^ k := by
    induction k generalizing start with
    | zero => simp [lowBytes, Nat.mod_one]
    | succ k ih =>
      rw [lowBytes, List.foldl_cons, ih, Nat.pow_eq, Nat.mod_pow_succ]
      ring
  rw [ofDigits, hfold, Nat.zero_mul, Nat.zero_add]

theorem lowBytes_mod (k n : Nat) : lowBytes k (n % 256 ^ k) = lowBytes k n := by
  induction k generalizing n with
  | zero => rfl
  | succ k ih =>
    have hfirst : n % 256 ^ (k + 1) / 256 ^ k % 256 = n / 256 ^ k % 256 := by
      rw [Nat.pow_succ, Nat.mod_mul_right_div_self, Nat.mod_mod]
    have hrest : n % 256 ^ (k + 1) % 256 ^ k = n % 256 ^ k :=
      Nat.mod_mod_of_dvd n (Nat.pow_dvd_pow 256 (Nat.le_succ k))
    rw [lowBytes, lowBytes, Nat.pow_eq, hfirst, ← ih (n % 256 ^ (k + 1)), hrest, ih]

theorem lowBytes_eq_iff : lowBytes k m = lowBytes k n ↔ m % 256 ^ k = n % 256 ^ k := by
  constructor
  · intro h
    rw [← ofDigits_lowBytes, h, ofDigits_lowBytes]
  · intro h
    rw [← lowBytes_mod k m, h, lowBytes_mod]

/-- The first digit decides, and the digits behind it if the first ones are equal. -/
theorem add_mul_lt_iff {r r' q q' p : Nat} (hr : r < p) (hr' : r' < p) :
    r + p * q < r' + p * q' ↔ q < q' ∨ q = q' ∧ r < r' := by
  rcases Nat.lt_trichotomy q q' with hlt | rfl | hgt
  · have hle : p * (q + 1) ≤ p * q' := Nat.mul_le_mul_left p hlt
    rw [Nat.mul_succ] at hle
    omega
  · omega
  · have hle : p * (q' + 1) ≤ p * q := Nat.mul_le_mul_left p hgt
    rw [Nat.mul_succ] at hle
    omega

theorem lowBytes_lt_iff : lowBytes k m < lowBytes k n ↔ m % 256 ^ k < n % 256 ^ k := by
  induction k with
  | zero => simp [lowBytes, Nat.mod_one]
  | succ k ih =>
    have hpos : 0 < 256 ^ k := Nat.pow_pos (by decide)
    rw [lowBytes, lowBytes, List.cons_lt_cons_iff, ih, Nat.pow_eq, Nat.mod_pow_succ,
      Nat.mod_pow_succ, add_mul_lt_iff (Nat.mod_lt m hpos) (Nat.mod_lt n hpos)]

/-! ## The bytes of an identifier -/

/-- What an identifier keeps of the numbers that it is made from. -/
def kept (millis machine count : Nat) : List Nat :=
  [millis % 2 ^ 40, machine % 2 ^ 24, count % 2 ^ 16]

theorem kept_eq (millis machine count : Nat) : kept millis machine count =
    [millis % 256 ^ 5, machine % 256 ^ 3, count % 256 ^ 2] := rfl

def bytes (millis machine count : Nat) : List Nat :=
  lowBytes 5 millis ++ lowBytes 3 machine ++ lowBytes 2 count

theorem encode_eq (millis machine count : Nat) :
    encode millis machine count = (bytes millis machine count).flatMap hexByte := rfl

theorem length_bytes (millis machine count : Nat) : (bytes millis machine count).length = 10 := by
  simp only [bytes, List.length_append, length_lowBytes]

theorem lt_of_mem_bytes : ∀ b ∈ bytes millis machine count, b < 256 := by
  intro b hb
  simp only [bytes, List.mem_append] at hb
  rcases hb with (hb | hb) | hb <;> exact lt_of_mem_lowBytes hb

theorem bytes_lt_iff : bytes millis machine count < bytes millis' machine' count' ↔
    kept millis machine count < kept millis' machine' count' := by
  have hlength {k m n : Nat} : (lowBytes k m).length = (lowBytes k n).length := by
    rw [length_lowBytes, length_lowBytes]
  rw [bytes, bytes, kept_eq, kept_eq, List.append_assoc, List.append_assoc,
    append_lt_append_iff hlength, append_lt_append_iff hlength]
  simp only [lowBytes_lt_iff, lowBytes_eq_iff, List.cons_lt_cons_iff, List.not_lt_nil, and_false,
    or_false]

theorem bytes_congr (h : kept millis machine count = kept millis' machine' count') :
    bytes millis machine count = bytes millis' machine' count' := by
  simp only [kept_eq, List.cons.injEq, and_true] at h
  obtain ⟨hmillis, hmachine, hcount⟩ := h
  rw [bytes, bytes, lowBytes_eq_iff.mpr hmillis, lowBytes_eq_iff.mpr hmachine,
    lowBytes_eq_iff.mpr hcount]

/-! ## The text of an identifier -/

theorem bytes_encode_lt_iff :
    Utf8.bytes (encode millis machine count) < Utf8.bytes (encode millis' machine' count') ↔
      kept millis machine count < kept millis' machine' count' := by
  rw [encode_eq, encode_eq, bytes_hexText_lt_iff lt_of_mem_bytes lt_of_mem_bytes
    ((length_bytes ..).trans (length_bytes ..).symm), bytes_lt_iff]

theorem encode_eq_iff : encode millis machine count = encode millis' machine' count' ↔
    kept millis machine count = kept millis' machine' count' := by
  constructor
  · intro h
    -- texts that are equal have no order, and so has what is kept
    rcases lt_trichotomy (kept millis machine count) (kept millis' machine' count') with
      hlt | heq | hgt
    · exact absurd (h ▸ bytes_encode_lt_iff.mpr hlt) (List.lt_irrefl _)
    · exact heq
    · exact absurd (h ▸ bytes_encode_lt_iff.mpr hgt) (List.lt_irrefl _)
  · intro h
    rw [encode_eq, encode_eq, bytes_congr h]

theorem length_encode (millis machine count : Nat) :
    (encode millis machine count).length = width := by
  rw [encode_eq, length_flatMap_hexByte, length_bytes]
  rfl

theorem isLowerHex_hexDigit {d : Nat} (h : d < 16) : isLowerHex (hexDigit d) = true := by
  revert d
  decide

theorem isLowerHex_of_mem_encode {c : Char} (h : c ∈ encode millis machine count) :
    isLowerHex c = true := by
  rw [encode_eq, flatMap_hexByte] at h
  obtain ⟨d, hd, rfl⟩ := List.mem_map.mp h
  exact isLowerHex_hexDigit (lt_of_mem_digits hd)

/-- The first half of an identifier is its time. -/
theorem take_encode (millis machine count : Nat) :
    (encode millis machine count).take timeWidth = (lowBytes 5 millis).flatMap hexByte := by
  have hlength : ((lowBytes 5 millis).flatMap hexByte).length = timeWidth := by
    rw [length_flatMap_hexByte, length_lowBytes]
    rfl
  rw [encode_eq, bytes, List.append_assoc, List.flatMap_append, ← hlength, List.take_left]

theorem timestampMillis_encode (millis machine count : Nat) :
    timestampMillis (encode millis machine count) = .ok (some (millis % 2 ^ 40)) := by
  have hsize : ∀ c ∈ encode millis machine count, c.utf8Size = 1 := fun c => utf8Size_of_mem_hexText
  have hlength := length_encode millis machine count
  have hcut := Utf8.cutAt?_eq_take hsize (n := timeWidth) (hlength ▸ by decide)
  have hvalue : ofDigits 256 (lowBytes 5 millis) = millis % 2 ^ 40 := ofDigits_lowBytes 5 millis
  have hread :
      read? 16 (2 ^ 64) ((lowBytes 5 millis).flatMap hexByte) = some (millis % 2 ^ 40) := by
    have hne : lowBytes 5 millis ≠ [] := List.cons_ne_nil _ _
    rw [read?_hexText hne (fun b => lt_of_mem_lowBytes) (hvalue ▸ by omega), hvalue]
  rw [timestampMillis, Utf8.byteLength_eq_length hsize, hlength, if_neg (not_not_intro rfl), hcut,
    take_encode]
  exact congrArg Except.ok hread

/-- **The layout of identifiers.** An identifier is twenty hexadecimal digits in lower case, and its
time can be read from it. It tells the remainders of the millisecond, the machine and the counter,
and no more; the bytes of two identifiers compare as these do, one after the other. So on one
machine the later millisecond comes second, whatever the counters are, up to where the milliseconds
wrap. -/
theorem layout_keeps_order (millis machine count : Nat) :
    ((encode millis machine count).length = 20 ∧
      ∀ c ∈ encode millis machine count, isLowerHex c = true) ∧
    timestampMillis (encode millis machine count) = .ok (some (millis % 2 ^ 40)) ∧
    ∀ millis' machine' count',
      (encode millis machine count = encode millis' machine' count' ↔
        millis % 2 ^ 40 = millis' % 2 ^ 40 ∧ machine % 2 ^ 24 = machine' % 2 ^ 24 ∧
          count % 2 ^ 16 = count' % 2 ^ 16) ∧
      (Utf8.bytes (encode millis machine count) < Utf8.bytes (encode millis' machine' count') ↔
        kept millis machine count < kept millis' machine' count') ∧
      (machine = machine' → millis < millis' → millis' < 2 ^ 40 →
        Utf8.bytes (encode millis machine count) <
          Utf8.bytes (encode millis' machine' count')) := by
  refine ⟨⟨length_encode .., fun c => isLowerHex_of_mem_encode⟩, timestampMillis_encode ..,
    fun millis' machine' count' => ⟨?_, bytes_encode_lt_iff, fun _ hlt hwrap => ?_⟩⟩
  · rw [encode_eq_iff]
    simp only [kept, List.cons.injEq, and_true]
  · rw [bytes_encode_lt_iff, kept, kept, List.cons_lt_cons_iff, Nat.mod_eq_of_lt hwrap,
      Nat.mod_eq_of_lt (Nat.lt_trans hlt hwrap)]
    exact .inl hlt

/-- The counter has wrapped between two milliseconds of one machine. -/
theorem layout_keeps_order_wrapped :
    Utf8.bytes (encode 7 0xABCDEF 0xFFFF) < Utf8.bytes (encode 8 0xABCDEF 0) ∧
      encode 7 0xABCDEF 0xFFFF = "0000000007abcdefffff".toList := by
  obtain ⟨-, -, h⟩ := layout_keeps_order 7 0xABCDEF 0xFFFF
  exact ⟨(h 8 0xABCDEF 0).2.2 rfl (by decide) (by decide), by decide⟩

end Logbook.Trace.Id
