import Mathlib.Data.List.Induction
import Mathlib.Tactic.Ring
import Logbook.Number.Digits
import Logbook.Proofs.Text.Utf8

/-! Bytes in hexadecimal, two digits for each. The bytes of such a text have the order of the bytes
that it shows (`bytes_hexText_lt_iff`), and reading it gives the number that these denote
(`read?_hexText`). -/

namespace Logbook.Digits

/-! ## Blocks of one length -/

variable {α β : Type}

theorem append_lt_append_iff [LT α] {l l' m m' : List α} (h : l.length = l'.length) :
    l ++ m < l' ++ m' ↔ l < l' ∨ l = l' ∧ m < m' := by
  induction l generalizing l' with
  | nil =>
    obtain rfl : l' = [] := List.eq_nil_of_length_eq_zero h.symm
    simp
  | cons a l ih =>
    cases l' with
    | nil => cases h
    | cons b l' =>
      rw [List.cons_append, List.cons_append, List.cons_lt_cons_iff, List.cons_lt_cons_iff,
        ih (Nat.succ.inj h), List.cons.injEq, and_or_left, and_assoc, or_assoc]

/-- Codes of one length that keep the order of what they stand for keep the order of lists. -/
theorem flatMap_lt_flatMap_iff [LT α] [LT β] {f : α → List β} {P : α → Prop}
    (hlength : ∀ a b, (f a).length = (f b).length)
    (hlt : ∀ {a b}, P a → P b → (f a < f b ↔ a < b))
    (heq : ∀ {a b}, P a → P b → f a = f b → a = b) {l l' : List α} (hl : ∀ a ∈ l, P a)
    (hl' : ∀ a ∈ l', P a) (h : l.length = l'.length) : l.flatMap f < l'.flatMap f ↔ l < l' := by
  induction l generalizing l' with
  | nil =>
    obtain rfl : l' = [] := List.eq_nil_of_length_eq_zero h.symm
    simp
  | cons a l ih =>
    cases l' with
    | nil => cases h
    | cons b l' =>
      have ha := hl a (.head _)
      have hb := hl' b (.head _)
      have hfirst : f a = f b ↔ a = b := ⟨heq ha hb, congrArg f⟩
      rw [List.flatMap_cons, List.flatMap_cons, append_lt_append_iff (hlength a b), hlt ha hb,
        hfirst, List.cons_lt_cons_iff,
        ih (fun c hc => hl c (.tail _ hc)) (fun c hc => hl' c (.tail _ hc)) (Nat.succ.inj h)]

/-! ## Digits -/

variable {d e b c : Nat}

/-- The byte of a digit. -/
def hexCode (d : Nat) : UInt8 := UInt8.ofNat (hexDigit d).toNat

theorem utf8EncodeChar_hexDigit (h : d < 16) :
    String.utf8EncodeChar (hexDigit d) = [hexCode d] := by
  revert d
  decide

theorem utf8Size_hexDigit (h : d < 16) : (hexDigit d).utf8Size = 1 := by
  revert d
  decide

theorem digit?_hexDigit (h : d < 16) : digit? 16 (hexDigit d) = some d := by
  revert d
  decide

theorem hexDigit_ne_plus (h : d < 16) : hexDigit d ≠ '+' := by
  revert d
  decide

theorem hexCode_lt_iff (hd : d < 16) (he : e < 16) : hexCode d < hexCode e ↔ d < e := by
  revert e
  revert d
  decide

theorem hexCode_inj (hd : d < 16) (he : e < 16) : hexCode d = hexCode e ↔ d = e := by
  revert e
  revert d
  decide

/-! ## Bytes -/

theorem mod_sixteen_lt (n : Nat) : n % 16 < 16 := Nat.mod_lt n (by decide)

/-- The two digits of a byte. -/
def nibbles (b : Nat) : List Nat := [b / 16 % 16, b % 16]

theorem lt_of_mem_nibbles (h : d ∈ nibbles b) : d < 16 := by
  simp only [nibbles, List.mem_cons, List.not_mem_nil, or_false] at h
  omega

theorem flatMap_hexByte (bytes : List Nat) :
    bytes.flatMap hexByte = (bytes.flatMap nibbles).map hexDigit :=
  (List.map_flatMap (f := hexDigit) (g := nibbles)).symm

theorem lt_of_mem_digits {bytes : List Nat} (h : d ∈ bytes.flatMap nibbles) : d < 16 := by
  obtain ⟨b, -, hd⟩ := List.mem_flatMap.mp h
  exact lt_of_mem_nibbles hd

theorem bytes_hexByte (b : Nat) :
    Utf8.bytes (hexByte b) = [hexCode (b / 16 % 16), hexCode (b % 16)] := by
  simp only [Utf8.bytes, hexByte, List.flatMap_cons, List.flatMap_nil,
    utf8EncodeChar_hexDigit (mod_sixteen_lt _)]
  rfl

theorem bytes_hexByte_lt_iff (hb : b < 256) (hc : c < 256) :
    Utf8.bytes (hexByte b) < Utf8.bytes (hexByte c) ↔ b < c := by
  simp only [bytes_hexByte, List.cons_lt_cons_iff, hexCode_lt_iff, hexCode_inj, mod_sixteen_lt,
    List.not_lt_nil, and_false, or_false]
  omega

theorem eq_of_bytes_hexByte (hb : b < 256) (hc : c < 256)
    (h : Utf8.bytes (hexByte b) = Utf8.bytes (hexByte c)) : b = c := by
  simp only [bytes_hexByte, List.cons.injEq, hexCode_inj, mod_sixteen_lt, and_true] at h
  omega

/-- **Order of hexadecimal texts.** Texts of equally many bytes sort as the bytes do. -/
theorem bytes_hexText_lt_iff {l l' : List Nat} (hl : ∀ b ∈ l, b < 256) (hl' : ∀ b ∈ l', b < 256)
    (h : l.length = l'.length) :
    Utf8.bytes (l.flatMap hexByte) < Utf8.bytes (l'.flatMap hexByte) ↔ l < l' := by
  have hlength (b c : Nat) : (Utf8.bytes (hexByte b)).length = (Utf8.bytes (hexByte c)).length := by
    rw [bytes_hexByte, bytes_hexByte]
    rfl
  rw [Utf8.bytes, Utf8.bytes, List.flatMap_assoc, List.flatMap_assoc]
  exact flatMap_lt_flatMap_iff hlength bytes_hexByte_lt_iff eq_of_bytes_hexByte hl hl' h

/-! ## Reading -/

theorem ofDigits_concat (radix : Nat) (digits : List Nat) (d : Nat) :
    ofDigits radix (digits ++ [d]) = ofDigits radix digits * radix + d :=
  List.foldl_append

theorem ofDigits_nibbles {bytes : List Nat} (h : ∀ b ∈ bytes, b < 256) :
    ofDigits 16 (bytes.flatMap nibbles) = ofDigits 256 bytes := by
  induction bytes using List.reverseRecOn with
  | nil => rfl
  | append_singleton bytes b ih =>
    have hb := h b List.mem_concat_self
    have hnibbles : (bytes ++ [b]).flatMap nibbles =
        bytes.flatMap nibbles ++ [b / 16 % 16] ++ [b % 16] := by
      rw [List.flatMap_append, List.flatMap_singleton, nibbles, List.append_assoc]
      rfl
    rw [hnibbles, ofDigits_concat, ofDigits_concat, ofDigits_concat,
      ih fun c hc => h c (List.mem_append_left _ hc)]
    omega

theorem mapM_digit? {digits : List Nat} (h : ∀ d ∈ digits, d < 16) :
    (digits.map hexDigit).mapM (digit? 16) = some digits := by
  induction digits with
  | nil => rfl
  | cons d digits ih =>
    rw [List.map_cons, List.mapM_cons, digit?_hexDigit (h d (.head _)),
      ih fun e he => h e (.tail _ he)]
    rfl

/-- Hexadecimal text is read as the number that its bytes denote. -/
theorem read?_hexText {limit : Nat} {bytes : List Nat} (hne : bytes ≠ []) (h : ∀ b ∈ bytes, b < 256)
    (hlimit : ofDigits 256 bytes < limit) :
    read? 16 limit (bytes.flatMap hexByte) = some (ofDigits 256 bytes) := by
  obtain ⟨b, rest, rfl⟩ := List.exists_cons_of_ne_nil hne
  have hplus : dropPlus ((b :: rest).flatMap hexByte) = (b :: rest).flatMap hexByte := by
    have hfirst := hexDigit_ne_plus (mod_sixteen_lt (b / 16))
    rw [List.flatMap_cons, hexByte, List.cons_append]
    exact dropPlus.eq_2 _ fun text heq => hfirst (List.cons.inj heq).1
  have hunsigned :
      unsigned? 16 ((b :: rest).flatMap hexByte) = some (ofDigits 256 (b :: rest)) := by
    rw [flatMap_hexByte, unsigned?, mapM_digit? fun d => lt_of_mem_digits,
      if_neg (by simp [nibbles]), Option.map_some, ofDigits_nibbles h]
  rw [read?, hplus, hunsigned, Option.filter_some, if_pos (decide_eq_true hlimit)]

theorem utf8Size_of_mem_hexText {bytes : List Nat} {x : Char} (h : x ∈ bytes.flatMap hexByte) :
    x.utf8Size = 1 := by
  rw [flatMap_hexByte] at h
  obtain ⟨d, hd, rfl⟩ := List.mem_map.mp h
  exact utf8Size_hexDigit (lt_of_mem_digits hd)

theorem length_flatMap_hexByte (bytes : List Nat) :
    (bytes.flatMap hexByte).length = 2 * bytes.length := by
  induction bytes with
  | nil => rfl
  | cons b bytes ih =>
    rw [List.flatMap_cons, List.length_append, ih, List.length_cons]
    change 2 + _ = _
    ring

end Logbook.Digits
