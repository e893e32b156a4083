import Logbook.Proofs.Number.Unsigned
import Logbook.Trace.Id

/-! What is read from a text as the time of an identifier (`timestampMillis_outcome`). The first ten
bytes are cut off without a look at the characters, and read with an optional sign. -/

namespace Logbook.Trace.Id

/-- The digits that hold the time of an identifier: they fill its first ten bytes, or all but the
first of these, which is a plus sign. -/
structure HoldsTime (id digits : List Char) : Prop where
  isHexDigit : ∀ c ∈ digits, c.isHexDigit = true
  place : digits.length = timeWidth ∧ (∃ rest, id = digits ++ rest) ∨
    digits.length + 1 = timeWidth ∧ ∃ rest, id = '+' :: digits ++ rest

variable {id digits time : List Char} {n : Nat}

theorem ofDigits_hexValue_lt (h : ∀ c ∈ digits, c.isHexDigit = true) :
    Digits.ofDigits 16 (digits.map Digits.hexValue) < 16 ^ digits.length := by
  have hlt := Digits.ofDigits_lt (List.forall_mem_map.mpr fun c hc => Digits.hexValue_lt (h c hc))
  rwa [List.length_map] at hlt

theorem byteLength_digits (h : ∀ c ∈ digits, c.isHexDigit = true) :
    Utf8.byteLength digits = digits.length :=
  Utf8.byteLength_eq_length fun c hc => Digits.utf8Size_of_isHexDigit (h c hc)

/-- Ten digits denote a number of forty bits, so that none is too large. -/
theorem HoldsTime.ofDigits_lt (h : HoldsTime id digits) :
    Digits.ofDigits 16 (digits.map Digits.hexValue) < Nat.pow 2 64 := by
  have hlength : digits.length ≤ 10 := by
    obtain ⟨hlength, -⟩ | ⟨hlength, -⟩ := h.place
    · exact hlength.le
    · exact (Nat.le_succ _).trans hlength.le
  calc Digits.ofDigits 16 (digits.map Digits.hexValue) < 16 ^ digits.length :=
        ofDigits_hexValue_lt h.isHexDigit
    _ ≤ 16 ^ 10 := Nat.pow_le_pow_right (by decide) hlength
    _ ≤ Nat.pow 2 64 := by decide

/-- The first ten bytes are read as a number where they hold digits. -/
theorem read?_time_iff : (∃ time, ((∃ rest, id = time ++ rest) ∧ Utf8.byteLength time = timeWidth) ∧
      Digits.read? 16 (Nat.pow 2 64) time = some n) ↔
    ∃ digits, HoldsTime id digits ∧ Digits.ofDigits 16 (digits.map Digits.hexValue) = n := by
  simp only [Digits.read?_sixteen_eq_some_iff]
  constructor
  · rintro ⟨time, ⟨hrest, hlength⟩, digits, rfl | rfl, -, hdigits, hvalue, -⟩
    · rw [byteLength_digits hdigits] at hlength
      exact ⟨time, ⟨hdigits, .inl ⟨hlength, hrest⟩⟩, hvalue⟩
    · rw [Utf8.byteLength, byteLength_digits hdigits, Nat.add_comm] at hlength
      exact ⟨digits, ⟨hdigits, .inr ⟨hlength, hrest⟩⟩, hvalue⟩
  · rintro ⟨digits, htime, rfl⟩
    have hlt := htime.ofDigits_lt
    have hdigits := htime.isHexDigit
    obtain ⟨hlength, hrest⟩ | ⟨hlength, hrest⟩ := htime.place
    · refine ⟨digits, ⟨hrest, (byteLength_digits hdigits).trans hlength⟩, digits, .inl rfl, ?_,
        hdigits, rfl, hlt⟩
      rintro rfl
      cases hlength
    · refine ⟨'+' :: digits, ⟨hrest, ?_⟩, digits, .inr rfl, ?_, hdigits, rfl, hlt⟩
      · rw [Utf8.byteLength, byteLength_digits hdigits, Nat.add_comm]
        exact hlength
      · rintro rfl
        cases hlength

theorem timestampMillis_eq_error_iff : timestampMillis id = .error .insideCharacter ↔
    Utf8.byteLength id = width ∧ Utf8.cutAt? id timeWidth = none := by
  rw [timestampMillis]
  split
  · rename_i hwidth
    exact iff_of_false nofun fun h => hwidth h.1
  · rename_i hwidth
    rw [and_iff_right (not_not.mp hwidth)]
    split
    · rename_i hcut
      exact iff_of_true rfl hcut
    · rename_i hcut
      exact iff_of_false nofun fun h => nomatch hcut.symm.trans h

theorem timestampMillis_eq_some_iff : timestampMillis id = .ok (some n) ↔
    Utf8.byteLength id = width ∧ ∃ time, Utf8.cutAt? id timeWidth = some time ∧
      Digits.read? 16 (Nat.pow 2 64) time = some n := by
  rw [timestampMillis]
  split
  · rename_i hwidth
    exact iff_of_false nofun fun h => hwidth h.1
  · rename_i hwidth
    rw [and_iff_right (not_not.mp hwidth)]
    split
    · rename_i hcut
      refine iff_of_false nofun ?_
      rintro ⟨time, htime, -⟩
      cases hcut.symm.trans htime
    · rename_i time hcut
      rw [Except.ok.injEq]
      constructor
      · exact fun hread => ⟨time, hcut, hread⟩
      · rintro ⟨time', htime, hread⟩
        obtain rfl := Option.some.inj (hcut.symm.trans htime)
        exact hread

/-- **Time of a text.** A text of twenty bytes whose tenth byte ends no character makes the decoder
fail. It gives a time to a text of twenty bytes that holds digits, the number that these denote, and
none to any other text. -/
theorem timestampMillis_outcome (id : List Char) :
    (timestampMillis id = .error .insideCharacter ↔ Utf8.byteLength id = width ∧
      ∀ time rest, id = time ++ rest → Utf8.byteLength time ≠ timeWidth) ∧
    ∀ n, timestampMillis id = .ok (some n) ↔ Utf8.byteLength id = width ∧
      ∃ digits, HoldsTime id digits ∧ Digits.ofDigits 16 (digits.map Digits.hexValue) = n := by
  refine ⟨?_, fun n => ?_⟩
  · simp only [timestampMillis_eq_error_iff, Option.eq_none_iff_forall_not_mem, Option.mem_def,
      Utf8.cutAt?_eq_some_iff, not_and, forall_exists_index]
  · rw [timestampMillis_eq_some_iff, ← read?_time_iff]
    simp only [Utf8.cutAt?_eq_some_iff]

/-- Neither does the length of a text make it safe to cut, nor are its first ten characters the
digits of the time that is read: a text of wide characters, and a sign before nine digits. -/
theorem timestampMillis_wide_and_signed :
    timestampMillis "日本語日本語ab".toList = .error .insideCharacter ∧
      timestampMillis "+123456789abcdefabcd".toList = .ok (some 0x123456789) := by
  decide

end Logbook.Trace.Id
