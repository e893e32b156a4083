import Logbook.Text.Lossy
import Logbook.Text.Utf8

/-! The bytes of a text. Reading them gives the text back (`decode_toUTF8`), and a newline is a byte
of its own (`newline_mem_of_mem_toUTF8`), as all characters are that have one byte
(`eq_of_mem_encode`). A text can be cut where some of its characters end (`cutAt?_eq_some_iff`,
`slice?_eq_some_iff`); where each character has one byte, positions in bytes are those of
characters. -/

namespace Logbook.Lossy

variable {b bits low high : Nat}

theorem decodeFrom_ascii (hb : b < 0x80) (bytes : List Nat) :
    decodeFrom none (b :: bytes) = Char.ofNat b :: decodeFrom none bytes := by
  rw [decodeFrom, feed, open?, if_pos hb]
  rfl

theorem decodeFrom_lead {lacking : Nat} (hb : 0x80 ≤ b)
    (h : lead? b = some (lacking, bits, low, high)) (bytes : List Nat) :
    decodeFrom none (b :: bytes) = decodeFrom (some ⟨lacking, bits, low, high⟩) bytes := by
  rw [decodeFrom, feed, open?, if_neg (Nat.not_lt.mpr hb), h]
  rfl

/-- A byte in its range brings its six bits. -/
theorem decodeFrom_more (hlow : low ≤ b) (hhigh : b ≤ high) (n : Nat) (bytes : List Nat) :
    decodeFrom (some ⟨n + 2, bits, low, high⟩) (b :: bytes) =
      decodeFrom (some ⟨n + 1, bits * 64 + (b - 0x80), 0x80, 0xBF⟩) bytes := by
  rw [decodeFrom, feed, if_pos ⟨hlow, hhigh⟩]
  rfl

theorem decodeFrom_last (hlow : low ≤ b) (hhigh : b ≤ high) (bytes : List Nat) :
    decodeFrom (some ⟨1, bits, low, high⟩) (b :: bytes) =
      Char.ofNat (bits * 64 + (b - 0x80)) :: decodeFrom none bytes := by
  rw [decodeFrom, feed, if_pos ⟨hlow, hhigh⟩]
  rfl

/-- What the first byte of three tells; that of a number of a surrogate would tell less. -/
theorem lead?_three {v : Nat} (hlow : 0x800 ≤ v) (hhigh : v ≤ 0xFFFF)
    (hvalid : v < 0xD800 ∨ 0xDFFF < v) :
    ∃ low high, lead? (v / 4096 % 16 + 224) = some (2, v / 4096, low, high) ∧
      low ≤ v / 64 % 64 + 128 ∧ v / 64 % 64 + 128 ≤ high := by
  unfold lead?
  by_cases hfirst : v / 4096 = 0
  · refine ⟨0xA0, 0xBF, ?_, by omega, by omega⟩
    rw [if_neg (by omega), if_pos (by omega), hfirst]
  · by_cases hsurrogate : v / 4096 = 13
    · refine ⟨0x80, 0x9F, ?_, by omega, by omega⟩
      rw [if_neg (by omega), if_neg (by omega), if_pos (by omega), hsurrogate]
    · refine ⟨0x80, 0xBF, ?_, by omega, by omega⟩
      rw [if_neg (by omega), if_neg (by omega), if_neg (by omega), if_pos (by omega)]
      simp only [Option.some.injEq, Prod.mk.injEq, true_and, and_true]
      omega

theorem lead?_four {v : Nat} (hlow : 0x10000 ≤ v) (hhigh : v < 0x110000) :
    ∃ low high, lead? (v / 262144 % 8 + 240) = some (3, v / 262144, low, high) ∧
      low ≤ v / 4096 % 64 + 128 ∧ v / 4096 % 64 + 128 ≤ high := by
  unfold lead?
  by_cases hfirst : v / 262144 = 0
  · refine ⟨0x90, 0xBF, ?_, by omega, by omega⟩
    rw [if_neg (by omega), if_neg (by omega), if_neg (by omega), if_neg (by omega),
      if_pos (by omega), hfirst]
  · by_cases hlast : v / 262144 = 4
    · refine ⟨0x80, 0x8F, ?_, by omega, by omega⟩
      rw [if_neg (by omega), if_neg (by omega), if_neg (by omega), if_neg (by omega),
        if_neg (by omega), if_pos (by omega), hlast]
    · refine ⟨0x80, 0xBF, ?_, by omega, by omega⟩
      rw [if_neg (by omega), if_neg (by omega), if_neg (by omega), if_neg (by omega),
        if_neg (by omega), if_neg (by omega), if_pos (by omega)]
      simp only [Option.some.injEq, Prod.mk.injEq, true_and, and_true]
      omega

/-- The byte that carries six bits of a number. -/
theorem toNat_tail (n : Nat) : (UInt8.ofNat (n % 64 + 128)).toNat = n % 64 + 128 := by
  rw [UInt8.toNat_ofNat']
  omega

theorem decodeFrom_char (c : Char) (bytes : List Nat) :
    decodeFrom none ((String.utf8EncodeChar c).map UInt8.toNat ++ bytes) =
      c :: decodeFrom none bytes := by
  have hvalid : c.toNat < 0xD800 ∨ 0xDFFF < c.toNat ∧ c.toNat < 0x110000 := c.valid
  have hv : c.val.toNat = c.toNat := rfl
  unfold String.utf8EncodeChar
  rw [hv]
  generalize hn : c.toNat = v at hvalid ⊢
  obtain rfl : c = Char.ofNat v := hn ▸ (Char.ofNat_toNat c).symm
  have hbyte (n : Nat) (h : n < 256) : (UInt8.ofNat n).toNat = n :=
    UInt8.toNat_ofNat'.trans (Nat.mod_eq_of_lt h)
  dsimp only
  -- by the number of bytes
  split
  · simp only [List.map_cons, List.map_nil, List.cons_append, List.nil_append]
    rw [hbyte v (by omega), decodeFrom_ascii (by omega)]
  · split
    · have hlead : lead? (v / 64 % 32 + 192) = some (1, v / 64, 0x80, 0xBF) := by
        rw [lead?, if_pos (by omega), Nat.add_sub_cancel, Nat.mod_eq_of_lt (by omega)]
      simp only [List.map_cons, List.map_nil, List.cons_append, List.nil_append, toNat_tail]
      rw [hbyte _ (by omega), decodeFrom_lead (by omega) hlead,
        decodeFrom_last (by omega) (by omega),
        show v / 64 * 64 + (v % 64 + 128 - 128) = v by omega]
    · split
      · obtain ⟨low, high, hlead, hlow, hhigh⟩ :=
          lead?_three (v := v) (by omega) (by omega) (by omega)
        simp only [List.map_cons, List.map_nil, List.cons_append, List.nil_append, toNat_tail]
        rw [hbyte _ (by omega), decodeFrom_lead (by omega) hlead,
          decodeFrom_more hlow hhigh 0, decodeFrom_last (by omega) (by omega),
          show (v / 4096 * 64 + (v / 64 % 64 + 128 - 128)) * 64 + (v % 64 + 128 - 128) = v by omega]
      · obtain ⟨low, high, hlead, hlow, hhigh⟩ := lead?_four (v := v) (by omega) (by omega)
        simp only [List.map_cons, List.map_nil, List.cons_append, List.nil_append, toNat_tail]
        rw [hbyte _ (by omega), decodeFrom_lead (by omega) hlead, decodeFrom_more hlow hhigh 1,
          decodeFrom_more (by omega) (by omega) 0, decodeFrom_last (by omega) (by omega),
          show ((v / 262144 * 64 + (v / 4096 % 64 + 128 - 128)) * 64 +
            (v / 64 % 64 + 128 - 128)) * 64 + (v % 64 + 128 - 128) = v by omega]

theorem toUTF8_eq (text : String) :
    text.toUTF8.data.toList = text.toList.flatMap String.utf8EncodeChar := by
  rw [String.toUTF8, ← String.utf8Encode_toList, List.utf8Encode, List.toList_data_toByteArray]

theorem decode_toUTF8 (text : String) : decode text.toUTF8.data.toList = text := by
  have hdecode (chars : List Char) :
      decodeFrom none ((chars.flatMap String.utf8EncodeChar).map UInt8.toNat) = chars := by
    induction chars with
    | nil => rfl
    | cons c chars ih => rw [List.flatMap_cons, List.map_append, decodeFrom_char, ih]
  rw [decode, toUTF8_eq, hdecode, String.ofList_toList]

/-- All bytes of a character that has more than one are above those of ASCII. -/
theorem toNat_of_mem_encode {c : Char} {x : UInt8} (hx : x.toNat < 128)
    (h : x ∈ String.utf8EncodeChar c) : c.toNat = x.toNat := by
  have hbyte {n : Nat} (heq : x = UInt8.ofNat n) : x.toNat = n % 256 :=
    (congrArg UInt8.toNat heq).trans UInt8.toNat_ofNat'
  have hv : c.val.toNat = c.toNat := rfl
  unfold String.utf8EncodeChar at h
  rw [hv] at h
  dsimp only at h
  split at h
  · have hnat := hbyte (List.mem_singleton.mp h)
    omega
  · exfalso
    split at h
    · simp only [List.mem_cons, List.not_mem_nil, or_false] at h
      rcases h with h | h <;> have := hbyte h <;> omega
    · split at h
      · simp only [List.mem_cons, List.not_mem_nil, or_false] at h
        rcases h with h | h | h <;> have := hbyte h <;> omega
      · simp only [List.mem_cons, List.not_mem_nil, or_false] at h
        rcases h with h | h | h | h <;> have := hbyte h <;> omega

theorem eq_newline_of_mem_encode {c : Char} (h : (10 : UInt8) ∈ String.utf8EncodeChar c) :
    c = '\n' := by
  rw [← Char.ofNat_toNat c, toNat_of_mem_encode (by decide) h]
  rfl

theorem newline_mem_of_mem_toUTF8 {text : String} (h : (10 : UInt8) ∈ text.toUTF8.data.toList) :
    '\n' ∈ text.toList := by
  rw [toUTF8_eq] at h
  obtain ⟨c, hc, hmem⟩ := List.mem_flatMap.mp h
  exact eq_newline_of_mem_encode hmem ▸ hc

end Logbook.Lossy

namespace Logbook.Utf8

variable {text front : List Char} {n : Nat}

/-- The bytes of a text. -/
def bytes (text : List Char) : List UInt8 := text.flatMap String.utf8EncodeChar

theorem byteLength_eq_length (h : ∀ c ∈ text, c.utf8Size = 1) : byteLength text = text.length := by
  induction text with
  | nil => rfl
  | cons c text ih =>
    rw [byteLength, h c (.head _), ih fun d hd => h d (.tail _ hd), List.length_cons, Nat.add_comm]

theorem cutAt?_eq_take (h : ∀ c ∈ text, c.utf8Size = 1) (hn : n ≤ text.length) :
    cutAt? text n = some (text.take n) := by
  induction text generalizing n with
  | nil =>
    obtain rfl := Nat.le_zero.mp hn
    rfl
  | cons c text ih =>
    cases n with
    | zero => rfl
    | succ n =>
      have hrest := ih (fun d hd => h d (.tail _ hd)) (Nat.le_of_succ_le_succ hn)
      rw [cutAt?, h c (.head _), if_pos (Nat.le_add_left 1 n), Nat.add_sub_cancel, hrest]
      rfl

theorem byteLength_eq_zero_iff : byteLength text = 0 ↔ text = [] := by
  cases text with
  | nil => exact iff_of_true rfl rfl
  | cons c text =>
    have hpos := c.utf8Size_pos
    exact iff_of_false (Nat.ne_of_gt (Nat.add_pos_left hpos _)) (List.cons_ne_nil c text)

theorem cutAt?_zero (text : List Char) : cutAt? text 0 = some [] := by
  cases text <;> rfl

theorem cutAt?_zero_eq_some_iff :
    cutAt? text 0 = some front ↔ (∃ rest, text = front ++ rest) ∧ byteLength front = 0 := by
  rw [cutAt?_zero, Option.some.injEq, byteLength_eq_zero_iff, eq_comm]
  refine ⟨?_, And.right⟩
  rintro rfl
  exact ⟨⟨text, rfl⟩, rfl⟩

theorem cutAt?_cons_eq_some_iff {c : Char} : cutAt? (c :: text) (n + 1) = some front ↔
    c.utf8Size ≤ n + 1 ∧
      ∃ rest, cutAt? text (n + 1 - c.utf8Size) = some rest ∧ c :: rest = front := by
  rw [cutAt?]
  by_cases hsize : c.utf8Size ≤ n + 1
  · rw [if_pos hsize, Option.map_eq_some_iff, and_iff_right hsize]
  · simp only [hsize, if_false, reduceCtorEq, false_and]

/-- A cut is possible exactly where some characters fill the bytes in front of it. -/
theorem cutAt?_eq_some_iff :
    cutAt? text n = some front ↔ (∃ rest, text = front ++ rest) ∧ byteLength front = n := by
  induction text generalizing n front with
  | nil =>
    cases n with
    | zero => exact cutAt?_zero_eq_some_iff
    | succ n =>
      refine iff_of_false nofun ?_
      rintro ⟨⟨rest, htext⟩, hlength⟩
      obtain rfl := (List.append_eq_nil_iff.mp htext.symm).1
      cases hlength
  | cons c text ih =>
    cases n with
    | zero => exact cutAt?_zero_eq_some_iff
    | succ n =>
      simp only [cutAt?_cons_eq_some_iff, ih]
      constructor
      · rintro ⟨hsize, inner, ⟨⟨rest, rfl⟩, hlength⟩, rfl⟩
        refine ⟨⟨rest, rfl⟩, ?_⟩
        rw [byteLength, hlength, Nat.add_sub_cancel' hsize]
      · rintro ⟨⟨rest, htext⟩, hlength⟩
        cases front with
        | nil => cases hlength
        | cons d inner =>
          obtain ⟨rfl, rfl⟩ := List.cons.inj htext
          rw [byteLength] at hlength
          exact ⟨by omega, inner, ⟨⟨rest, rfl⟩, by omega⟩, rfl⟩

/-! ## The bytes of parts of a text -/

variable {a b part rest : List Char} {c d x : Char} {start stop : Nat}

theorem bytes_cons (c : Char) (text : List Char) :
    bytes (c :: text) = String.utf8EncodeChar c ++ bytes text := List.flatMap_cons

theorem bytes_append (a b : List Char) : bytes (a ++ b) = bytes a ++ bytes b := List.flatMap_append

theorem byteLength_append (a b : List Char) :
    byteLength (a ++ b) = byteLength a + byteLength b := by
  induction a with
  | nil => exact (Nat.zero_add _).symm
  | cons c a ih => rw [List.cons_append, byteLength, byteLength, ih, Nat.add_assoc]

theorem length_bytes (text : List Char) : (bytes text).length = byteLength text := by
  induction text with
  | nil => rfl
  | cons c text ih =>
    rw [bytes_cons, List.length_append, String.length_utf8EncodeChar, ih, byteLength]

theorem drop_bytes (a b : List Char) : (bytes (a ++ b)).drop (byteLength a) = bytes b := by
  rw [bytes_append, List.drop_left' (length_bytes a)]

/-- The bytes of a text tell where its characters end. -/
theorem encode_append_inj {tail tail' : List UInt8}
    (h : String.utf8EncodeChar c ++ tail = String.utf8EncodeChar d ++ tail') :
    c = d ∧ tail = tail' := by
  have hdecode := congrArg (fun l => Lossy.decodeFrom none (l.map UInt8.toNat)) h
  simp only [List.map_append, Lossy.decodeFrom_char] at hdecode
  obtain rfl := (List.cons.inj hdecode).1
  exact ⟨rfl, List.append_cancel_left h⟩

/-- A text begins with another one where its bytes do. -/
theorem bytes_prefix_iff : bytes a <+: bytes b ↔ a <+: b := by
  constructor
  · intro h
    induction a generalizing b with
    | nil => exact List.nil_prefix
    | cons c a ih =>
      obtain ⟨more, hmore⟩ := h
      rw [bytes_cons, List.append_assoc] at hmore
      cases b with
      | nil => exact absurd (List.append_eq_nil_iff.mp hmore).1 String.utf8EncodeChar_ne_nil
      | cons d b =>
        rw [bytes_cons] at hmore
        obtain ⟨rfl, htail⟩ := encode_append_inj hmore
        exact List.cons_prefix_cons.mpr ⟨rfl, ih ⟨more, htail⟩⟩
  · rintro ⟨more, rfl⟩
    rw [bytes_append]
    exact List.prefix_append ..

/-! ## Parts of a text between two offsets -/

/-- The characters behind the first `n` bytes; `none` if the offset `n` is inside a character or
past the end. -/
def from? (text : List Char) (n : Nat) : Option (List Char) :=
  (cutAt? text n).map fun front => text.drop front.length

/-- The characters between two offsets in bytes; `none` if one of these is inside a character or
past the end, or if the second is in front of the first. -/
def slice? (text : List Char) (start stop : Nat) : Option (List Char) :=
  (cutAt? text stop).bind (from? · start)

theorem from?_eq_some_iff :
    from? text n = some rest ↔ ∃ front, text = front ++ rest ∧ byteLength front = n := by
  simp only [from?, Option.map_eq_some_iff, cutAt?_eq_some_iff]
  constructor
  · rintro ⟨front, ⟨⟨rest, rfl⟩, hn⟩, hrest⟩
    rw [List.drop_left] at hrest
    exact ⟨front, hrest ▸ rfl, hn⟩
  · rintro ⟨front, rfl, hn⟩
    exact ⟨front, ⟨⟨rest, rfl⟩, hn⟩, List.drop_left⟩

theorem slice?_eq_some_iff : slice? text start stop = some part ↔
    ∃ front rest, text = front ++ (part ++ rest) ∧ byteLength front = start ∧
      byteLength (front ++ part) = stop := by
  simp only [slice?, Option.bind_eq_some_iff, cutAt?_eq_some_iff, from?_eq_some_iff]
  constructor
  · rintro ⟨whole, ⟨⟨rest, rfl⟩, hstop⟩, front, rfl, hstart⟩
    exact ⟨front, rest, List.append_assoc .., hstart, hstop⟩
  · rintro ⟨front, rest, rfl, hstart, hstop⟩
    exact ⟨front ++ part, ⟨⟨rest, (List.append_assoc ..).symm⟩, hstop⟩, front, rfl, hstart⟩

/-! ## Characters of one byte -/

theorem utf8Size_of_ascii (h : c.toNat < 128) : c.utf8Size = 1 :=
  Char.utf8Size_eq_one_iff.mpr (UInt32.le_iff_toNat_le.mpr (Nat.le_of_lt_succ h))

theorem encode_of_ascii (h : c.toNat < 128) : String.utf8EncodeChar c = [c.toUInt8] :=
  String.utf8EncodeChar_eq_singleton (utf8Size_of_ascii h)

/-- The byte of a character that has one byte is in no other character. -/
theorem eq_of_mem_encode (hx : x.toNat < 128) (h : x.toUInt8 ∈ String.utf8EncodeChar c) :
    c = x := by
  have hbyte : x.toUInt8.toNat = x.toNat :=
    (UInt32.toNat_toUInt8 x.val).trans (Nat.mod_eq_of_lt (Nat.lt_trans hx (by decide)))
  exact Char.toNat_inj.mp ((Lossy.toNat_of_mem_encode (hbyte ▸ hx) h).trans hbyte)

theorem ne_of_wide (hc : ¬ c.toNat < 128) (hx : x.toNat < 128) : c ≠ x := fun h => hc (h ▸ hx)

theorem byte_ne_of_wide {b : UInt8} (hc : ¬ c.toNat < 128) (hx : x.toNat < 128)
    (hb : b ∈ String.utf8EncodeChar c) : b ≠ x.toUInt8 := fun h =>
  ne_of_wide hc hx (eq_of_mem_encode hx (h ▸ hb))

theorem toUInt8_eq_iff (hc : c.toNat < 128) (hx : x.toNat < 128) :
    c.toUInt8 = x.toUInt8 ↔ c = x := by
  refine ⟨fun h => eq_of_mem_encode hx ?_, congrArg _⟩
  rw [encode_of_ascii hc, h]
  exact List.mem_singleton_self _

end Logbook.Utf8
