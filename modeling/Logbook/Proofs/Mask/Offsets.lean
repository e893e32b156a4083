import Mathlib.Data.List.Infix
import Logbook.Proofs.Mask.Stretches
import Logbook.Proofs.Text.Utf8

/-!
# The scan by offsets

The scan for a field as it goes over the bytes of a text. The name is looked for in a folded copy,
the ends of a value are looked for in the bytes of the text itself, and the text is cut at the
offsets that are found. A cut out of range or inside a character is a fault. There is none on any
text, and the scan ends with what `redactField` gives (`scans_iff`): folding keeps all offsets, and
no byte of a character of more than one byte is a quote, a backslash, a colon or a blank. What the
scan changes are the values of a division of the text (`redactField_local`).
-/

namespace Logbook.Trace.Mask

open Ascii Utf8

/-- Where a scan stands: what it has written, up to where it has copied the text, and from where it
searches. -/
structure Scanner where
  output : List Char
  copied : Nat
  searchFrom : Nat

namespace Scanner

/-- What comes of one round of a scan. -/
inductive Round where
  | goesOn (next : Scanner)
  | ends (output : List Char)

/-- The bytes of a folded name between its quotes. -/
def pattern (name : List Char) : List UInt8 := bytes ('"' :: (name ++ ['"']))

/-- The place where a pattern first occurs. -/
def find? (pattern bytes : List UInt8) : Option Nat :=
  bytes.tails.findIdx? fun tail => pattern.isPrefixOf tail

def isSpaceByte (b : UInt8) : Bool :=
  b = ' '.toUInt8 ∨ b = '\t'.toUInt8 ∨ b = '\r'.toUInt8 ∨ b = '\n'.toUInt8

/-- The offset of the opening quote of a value, given the bytes from an offset on. -/
def openingFrom? (colonSeen : Bool) (offset : Nat) : List UInt8 → Option Nat
  | [] => none
  | b :: bytes =>
    if isSpaceByte b then openingFrom? colonSeen (offset + 1) bytes
    else if b = ':'.toUInt8 ∧ !colonSeen then openingFrom? true (offset + 1) bytes
    else if b = '"'.toUInt8 ∧ colonSeen then some offset
    else none

/-- The offset of the closing quote of a value or of the end of the text, given the bytes from an
offset on. -/
def closingFrom (escaped : Bool) (offset : Nat) : List UInt8 → Nat
  | [] => offset
  | b :: bytes =>
    if escaped then closingFrom false (offset + 1) bytes
    else if b = '\\'.toUInt8 then closingFrom true (offset + 1) bytes
    else if b = '"'.toUInt8 then offset
    else closingFrom false (offset + 1) bytes

/-- One round of the scan; `none` if the text cannot be cut at an offset. -/
def round? (field text : List Char) (s : Scanner) : Option Round := do
  let haystack ← from? (foldText text) s.searchFrom
  match find? (pattern (foldText field)) (bytes haystack) with
  | none =>
    let rest ← from? text s.copied
    some (.ends (s.output ++ rest))
  | some found =>
    let keyEnd := s.searchFrom + found + (pattern (foldText field)).length
    match openingFrom? false keyEnd ((bytes text).drop keyEnd) with
    | none => some (.goesOn { s with searchFrom := keyEnd })
    | some opening =>
      let closing := closingFrom false (opening + 1) ((bytes text).drop (opening + 1))
      let kept ← slice? text s.copied (opening + 1)
      some (.goesOn ⟨s.output ++ kept ++ mask.toList, closing, closing⟩)

/-- The rounds from here on come to an end, with the output. -/
inductive Finishes (field text : List Char) : Scanner → List Char → Prop
  | ends {s output} (round : s.round? field text = some (.ends output)) :
      Finishes field text s output
  | goesOn {s next output} (round : s.round? field text = some (.goesOn next))
      (later : Finishes field text next output) : Finishes field text s output

end Scanner

/-- The scan for a field comes to an end, with the output. A text is not scanned for the empty
name. -/
def Scans (field text output : List Char) : Prop :=
  if field = [] then output = text else Scanner.Finishes field text ⟨[], 0, 0⟩ output

namespace Scanner

/-! ## Bytes that are passed over -/

section

variable {run tail more : List UInt8} {b : UInt8}

theorem find?_cons (pattern : List UInt8) (b : UInt8) (tail : List UInt8) :
    find? pattern (b :: tail) =
      if pattern <+: b :: tail then some 0 else (find? pattern tail).map (· + 1) := by
  simp only [find?, List.tails_cons, List.findIdx?_cons, List.isPrefixOf_iff_prefix]

/-- The search passes over bytes that are not the first one of the pattern. -/
theorem find?_append (h : b ∉ run) :
    find? (b :: more) (run ++ tail) = (find? (b :: more) tail).map (run.length + ·) := by
  induction run with
  | nil => simp
  | cons d run ih =>
    rw [List.mem_cons, not_or] at h
    have hno : ¬ b :: more <+: d :: (run ++ tail) :=
      fun hp => h.1 (List.cons_prefix_cons.1 hp).1
    rw [List.cons_append, find?_cons, if_neg hno, ih h.2, Option.map_map, List.length_cons]
    congr 1
    funext n
    simp only [Function.comp_apply]
    omega

/-- The search for a closing quote passes over bytes that are neither quotes nor backslashes. -/
theorem closingFrom_append {escaped : Bool} {offset : Nat} (hne : run ≠ [])
    (h : ∀ b ∈ run, b ≠ '\\'.toUInt8 ∧ b ≠ '"'.toUInt8) :
    closingFrom escaped offset (run ++ tail) = closingFrom false (offset + run.length) tail := by
  induction run generalizing escaped offset with
  | nil => exact absurd rfl hne
  | cons b run ih =>
    obtain ⟨⟨hslash, hquote⟩, hrun⟩ := List.forall_mem_cons.1 h
    have hstep : closingFrom escaped offset (b :: run ++ tail) =
        closingFrom false (offset + 1) (run ++ tail) := by
      rw [List.cons_append, closingFrom, if_neg hslash, if_neg hquote, ite_self]
    rw [hstep]
    cases run with
    | nil => rfl
    | cons d run =>
      rw [ih (List.cons_ne_nil d run) hrun, List.length_cons (a := b)]
      congr 1
      omega

end

variable {field name text rest behind gap key : List Char} {c : Char}

/-! ## The name -/

/-- A letter has one byte in either case. -/
theorem utf8Size_fold (c : Char) : (fold c).utf8Size = c.utf8Size := by
  have hfold := toNat_fold c
  by_cases hupper : c.isUpper
  · have hle := (isUpper_iff c).1 hupper
    rw [if_pos hupper] at hfold
    rw [utf8Size_of_ascii (c := c) (by omega), utf8Size_of_ascii (by omega)]
  · rw [if_neg hupper] at hfold
    rw [Char.toNat_inj.1 hfold]

theorem byteLength_foldText (text : List Char) : byteLength (foldText text) = byteLength text := by
  induction text with
  | nil => rfl
  | cons c text ih =>
    rw [byteLength, ← ih, ← utf8Size_fold c]
    rfl

/-- A folded text begins with the name and a quote where `afterName?` finds them. -/
theorem prefix_foldText_iff :
    name ++ ['"'] <+: foldText text ↔ ∃ behind, afterName? name text = some behind := by
  simp only [afterName?_eq_some_iff]
  constructor
  · rintro ⟨more, h⟩
    rw [List.append_assoc, eq_comm, foldText, List.map_eq_append_iff] at h
    obtain ⟨key, tail, rfl, hkey, htail⟩ := h
    obtain ⟨q, behind, rfl, hq, -⟩ := List.map_eq_cons_iff.1 htail
    obtain rfl := (fold_eq_iff (by decide)).1 hq
    exact ⟨behind, key, rfl, hkey⟩
  · rintro ⟨behind, key, rfl, rfl⟩
    refine ⟨foldText behind, ?_⟩
    simp only [foldText, List.map_append, List.map_cons, List.append_assoc, List.singleton_append]
    rfl

/-- What a search for the name tells of a text: the name does not occur, or the text in front of its
first occurrence has so many bytes. -/
inductive Found (name text : List Char) : Option Nat → Prop
  | nowhere (redact : redactName name text = text) : Found name text none
  | behind {front key behind : List Char} (text_eq : text = front ++ '"' :: (key ++ '"' :: behind))
      (fold : foldText key = name)
      (redact : redactName name text = front ++ '"' :: (key ++ '"' :: redactBehind name behind)) :
      Found name text (some (byteLength front))

theorem Found.cons {place : Option Nat} (h : Found name text place)
    (hc : redactName name (c :: text) = c :: redactName name text) :
    Found name (c :: text) (place.map (c.utf8Size + ·)) := by
  cases h with
  | nowhere redact => exact .nowhere (by rw [hc, redact])
  | @behind front key behind text_eq fold redact =>
    exact @Found.behind _ _ (c :: front) key behind (by rw [text_eq]; rfl) fold
      (by rw [hc, redact]; rfl)

theorem found_find? (name text : List Char) :
    Found name text (find? (pattern name) (bytes (foldText text))) := by
  induction text with
  | nil => exact .nowhere redactName_nil
  | cons c text ih =>
    by_cases hc : c = '"'
    · subst hc
      have hbytes : bytes (foldText ('"' :: text)) = '"'.toUInt8 :: bytes (foldText text) := rfl
      have hoccurs : pattern name <+: '"'.toUInt8 :: bytes (foldText text) ↔
          ∃ behind, afterName? name text = some behind := by
        rw [← hbytes, pattern, bytes_prefix_iff, ← prefix_foldText_iff]
        exact List.cons_prefix_cons.trans (and_iff_right rfl)
      rw [hbytes, find?_cons]
      cases hname : afterName? name text with
      | none =>
        rw [if_neg (by simp [hoccurs, hname])]
        have h := ih.cons (redactName_quote_of_none hname)
        simpa only [show ('"' : Char).utf8Size = 1 from rfl, Nat.add_comm] using h
      | some behind =>
        rw [if_pos (hoccurs.2 ⟨behind, hname⟩)]
        obtain ⟨key, rfl, hkey⟩ := afterName?_eq_some_iff.1 hname
        exact @Found.behind _ _ [] key _ rfl hkey (redactName_occurrence hkey)
    · -- the pattern begins with a quote, which is no byte of any other character
      have hquote : '"'.toUInt8 ∉ String.utf8EncodeChar (fold c) := fun h =>
        hc ((fold_eq_iff (by decide)).1 (eq_of_mem_encode (by decide) h))
      have hfold : bytes (foldText (c :: text)) =
          String.utf8EncodeChar (fold c) ++ bytes (foldText text) := bytes_cons ..
      have hpass := @find?_append _ (bytes (foldText text)) (bytes (name ++ ['"'])) _ hquote
      rw [String.length_utf8EncodeChar, utf8Size_fold] at hpass
      rw [hfold]
      exact hpass ▸ ih.cons (redactName_cons_of_ne hc)

/-! ## Gaps and values -/

theorem isSpaceByte_toUInt8 (h : c.toNat < 128) : isSpaceByte c.toUInt8 = isSpace c := by
  simp only [isSpaceByte, isSpace, toUInt8_eq_iff h (x := ' ') (by decide),
    toUInt8_eq_iff h (x := '\t') (by decide), toUInt8_eq_iff h (x := '\r') (by decide),
    toUInt8_eq_iff h (x := '\n') (by decide)]

/-- Neither a character of more than one byte nor its first byte belongs to a gap. -/
theorem no_gap_of_wide {b : UInt8} (h : ¬ c.toNat < 128) (hb : b ∈ String.utf8EncodeChar c)
    (colonSeen : Bool) (offset : Nat) (text : List Char) (tail : List UInt8) :
    gap? colonSeen (c :: text) = none ∧ openingFrom? colonSeen offset (b :: tail) = none := by
  have hbyte (x : Char) (hx : x.toNat < 128) : b ≠ x.toUInt8 := byte_ne_of_wide h hx hb
  have hchar (x : Char) (hx : x.toNat < 128) : c ≠ x := ne_of_wide h hx
  constructor
  · simp [gap?, isSpace, hchar]
  · simp [openingFrom?, isSpaceByte, hbyte]

/-- The opening quote is the last byte of the gap. -/
theorem openingFrom?_bytes (colonSeen : Bool) (offset : Nat) (text : List Char) :
    (openingFrom? colonSeen offset (bytes text)).map (· + 1) =
      (gap? colonSeen text).map fun found => offset + byteLength found.1 := by
  induction text generalizing colonSeen offset with
  | nil => rfl
  | cons c text ih =>
    by_cases hascii : c.toNat < 128
    · have hcolon := toUInt8_eq_iff hascii (x := ':') (by decide)
      have hquote := toUInt8_eq_iff hascii (x := '"') (by decide)
      have hnext (seen : Bool) : (openingFrom? seen (offset + 1) (bytes text)).map (· + 1) =
          (gap? seen text).map fun found => offset + byteLength (c :: found.1) := by
        rw [ih]
        simp only [byteLength, utf8Size_of_ascii hascii, Nat.add_assoc]
      rw [bytes_cons, encode_of_ascii hascii, List.singleton_append]
      simp only [openingFrom?, gap?, isSpaceByte_toUInt8 hascii, hcolon, hquote]
      split
      · rw [Option.map_map]
        exact hnext colonSeen
      · split
        · rw [Option.map_map]
          exact hnext true
        · split
          · simp [byteLength, utf8Size_of_ascii hascii]
          · rfl
    · obtain ⟨b, more, hencode⟩ :=
        List.exists_cons_of_ne_nil (String.utf8EncodeChar_ne_nil (c := c))
      have hb : b ∈ String.utf8EncodeChar c := hencode ▸ List.mem_cons_self
      obtain ⟨hgap, hopening⟩ := no_gap_of_wide hascii hb colonSeen offset text (more ++ bytes text)
      rw [bytes_cons, hencode, List.cons_append, hgap, hopening]
      rfl

/-- The closing quote stands behind the bytes of the value. -/
theorem closingFrom_bytes (escaped : Bool) (offset : Nat) (text : List Char) :
    closingFrom escaped offset (bytes text) + byteLength (fromClosing escaped text) =
      offset + byteLength text := by
  induction text generalizing escaped offset with
  | nil => rfl
  | cons c text ih =>
    by_cases hascii : c.toNat < 128
    · have hslash := toUInt8_eq_iff hascii (x := '\\') (by decide)
      have hquote := toUInt8_eq_iff hascii (x := '"') (by decide)
      have hnext (escaped : Bool) : closingFrom escaped (offset + 1) (bytes text) +
          byteLength (fromClosing escaped text) = offset + byteLength (c :: text) := by
        rw [ih, byteLength, utf8Size_of_ascii hascii, Nat.add_assoc]
      rw [bytes_cons, encode_of_ascii hascii, List.singleton_append]
      simp only [closingFrom, fromClosing, hslash, hquote]
      split
      · exact hnext false
      · split
        · exact hnext true
        · split
          · rfl
          · exact hnext false
    · -- an escape ends with the first byte of the character, and its other bytes are passed over
      have hplain : ∀ b ∈ String.utf8EncodeChar c, b ≠ '\\'.toUInt8 ∧ b ≠ '"'.toUInt8 := fun b hb =>
        ⟨byte_ne_of_wide hascii (by decide) hb, byte_ne_of_wide hascii (by decide) hb⟩
      have hslash : c ≠ '\\' := ne_of_wide hascii (by decide)
      have hquote : c ≠ '"' := ne_of_wide hascii (by decide)
      have hvalue : fromClosing escaped (c :: text) = fromClosing false text := by
        rw [fromClosing, if_neg hslash, if_neg hquote, ite_self]
      rw [bytes_cons, closingFrom_append String.utf8EncodeChar_ne_nil hplain, hvalue, ih,
        String.length_utf8EncodeChar, byteLength, Nat.add_assoc]

/-! ## Rounds -/

/-- The scanner stands between characters of the text: it has copied `front` and has passed over
`passed`, and what it has written goes on with what the scan makes of the rest. -/
structure Stands (field text : List Char) (s : Scanner) (front passed rest : List Char) : Prop where
  text_eq : text = front ++ (passed ++ rest)
  copied : s.copied = byteLength front
  searchFrom : s.searchFrom = byteLength (front ++ passed)
  output : s.output ++ (passed ++ redactName (foldText field) rest) =
    redactName (foldText field) text

/-- The scanner finds the name in this round, and `passed` goes on to the end of the name. -/
structure Finds (field text : List Char) (s : Scanner) (front passed behind : List Char) :
    Prop where
  text_eq : text = front ++ (passed ++ behind)
  copied : s.copied = byteLength front
  keyEnd : ∃ haystack found, from? (foldText text) s.searchFrom = some haystack ∧
    find? (pattern (foldText field)) (bytes haystack) = some found ∧
    s.searchFrom + found + (pattern (foldText field)).length = byteLength (front ++ passed)
  output : s.output ++ (passed ++ redactBehind (foldText field) behind) =
    redactName (foldText field) text

variable {s : Scanner} {front passed more : List Char}

theorem Stands.haystack (h : s.Stands field text front passed rest) :
    from? (foldText text) s.searchFrom = some (foldText rest) := by
  refine from?_eq_some_iff.2 ⟨foldText (front ++ passed), ?_, ?_⟩
  · rw [h.text_eq, foldText, foldText, foldText, ← List.map_append, List.append_assoc]
  · rw [byteLength_foldText, h.searchFrom]

/-- The last round copies what is left. -/
theorem Stands.ends (h : s.Stands field text front passed rest)
    (hfind : find? (pattern (foldText field)) (bytes (foldText rest)) = none)
    (hkeep : redactName (foldText field) rest = rest) :
    s.round? field text = some (.ends (redactName (foldText field) text)) := by
  have hcut : from? text s.copied = some (passed ++ rest) :=
    from?_eq_some_iff.2 ⟨front, h.text_eq, h.copied.symm⟩
  have houtput := h.output
  rw [hkeep] at houtput
  simp only [round?, h.haystack, hfind, hcut, Option.bind_eq_bind, Option.bind_some, houtput]

theorem Stands.finds {before : List Char} (h : s.Stands field text front passed rest)
    (hrest : rest = before ++ '"' :: (key ++ '"' :: behind)) (hkey : foldText key = foldText field)
    (hfind : find? (pattern (foldText field)) (bytes (foldText rest)) = some (byteLength before))
    (hredact : redactName (foldText field) rest =
      before ++ '"' :: (key ++ '"' :: redactBehind (foldText field) behind)) :
    s.Finds field text front (passed ++ (before ++ '"' :: (key ++ ['"']))) behind where
  text_eq := by
    rw [h.text_eq, hrest]
    simp only [List.append_assoc, List.cons_append, List.nil_append]
  copied := h.copied
  keyEnd := by
    refine ⟨_, _, h.haystack, hfind, ?_⟩
    rw [h.searchFrom, pattern, length_bytes, ← hkey]
    simp only [byteLength_append, byteLength, byteLength_foldText]
    omega
  output := by
    rw [← h.output, hredact]
    simp only [List.append_assoc, List.cons_append, List.nil_append]

/-- A round without a value only searches on. -/
theorem Finds.passes (h : s.Finds field text front passed behind)
    (hgap : gap? false behind = none) : ∃ next, s.round? field text = some (.goesOn next) ∧
      next.Stands field text front passed behind := by
  obtain ⟨haystack, found, hhaystack, hfind, hkeyEnd⟩ := h.keyEnd
  have hdrop : (bytes text).drop (byteLength (front ++ passed)) = bytes behind := by
    rw [h.text_eq, ← List.append_assoc, drop_bytes]
  have hopening := openingFrom?_bytes false (byteLength (front ++ passed)) behind
  rw [hgap, Option.map_none, Option.map_eq_none_iff] at hopening
  have houtput := h.output
  rw [redactBehind_of_none hgap] at houtput
  refine ⟨{ s with searchFrom := byteLength (front ++ passed) }, ?_, h.text_eq, h.copied, rfl,
    houtput⟩
  simp only [round?, hhaystack, hfind, hkeyEnd, hdrop, hopening, Option.bind_eq_bind,
    Option.bind_some]

/-- A round with a value copies the text up to its opening quote, and goes on at its end. -/
theorem Finds.masks (h : s.Finds field text front passed behind)
    (hgap : gap? false behind = some (gap, more)) :
    ∃ next front', s.round? field text = some (.goesOn next) ∧
      next.Stands field text front' [] (fromClosing false more) := by
  obtain ⟨haystack, found, hhaystack, hfind, hkeyEnd⟩ := h.keyEnd
  obtain ⟨value, hvalue, -⟩ := exists_value false more
  have htext : text = front ++ (passed ++ gap) ++ more := by
    rw [h.text_eq, ← append_of_gap? hgap]
    simp only [List.append_assoc]
  have hdrop : (bytes text).drop (byteLength (front ++ passed)) = bytes behind := by
    rw [h.text_eq, ← List.append_assoc, drop_bytes]
  have hopening := openingFrom?_bytes false (byteLength (front ++ passed)) behind
  rw [hgap, Option.map_some, Option.map_eq_some_iff] at hopening
  obtain ⟨opening, hopening, hquote⟩ := hopening
  rw [← byteLength_append, List.append_assoc] at hquote
  have hdropValue : (bytes text).drop (opening + 1) = bytes more := by
    rw [hquote, htext, drop_bytes]
  have hclosing : closingFrom false (opening + 1) (bytes more) =
      byteLength (front ++ (passed ++ gap) ++ value) := by
    have hend := closingFrom_bytes false (opening + 1) more
    have hlength := congrArg byteLength hvalue
    rw [byteLength_append] at hlength
    rw [byteLength_append, ← hquote]
    omega
  have hkept : slice? text s.copied (opening + 1) = some (passed ++ gap) :=
    slice?_eq_some_iff.2
      ⟨front, more, by rw [htext, List.append_assoc], h.copied.symm, hquote.symm⟩
  have houtput := h.output
  rw [redactBehind_of_some hgap] at houtput
  let closing := byteLength (front ++ (passed ++ gap) ++ value)
  refine ⟨⟨s.output ++ (passed ++ gap) ++ mask.toList, closing, closing⟩, _, ?_, ?_, rfl, ?_, ?_⟩
  · simp only [round?, hhaystack, hfind, hkeyEnd, hdrop, hopening, hdropValue, hkept, hclosing,
      Option.bind_eq_bind, Option.bind_some, closing]
  · rw [htext, List.append_assoc _ value, List.nil_append, ← hvalue]
  · rw [List.append_nil]
  · rw [← houtput]
    simp only [List.append_assoc, List.nil_append]

/-- From where a scanner stands it comes to the end, since each round leaves less to search. -/
theorem Stands.finishes (h : s.Stands field text front passed rest) :
    s.Finishes field text (redactName (foldText field) text) := by
  induction hn : rest.length using Nat.strongRecOn generalizing s front passed rest with
  | _ n ih =>
    subst hn
    have hfound := found_find? (foldText field) rest
    generalize hfind : find? (pattern (foldText field)) (bytes (foldText rest)) = place at hfound
    cases hfound with
    | nowhere hkeep => exact .ends (h.ends hfind hkeep)
    | @behind before key behind hrest hkey hredact =>
      have hfinds := h.finds hrest hkey hfind hredact
      have hshort : behind.length < rest.length := by
        rw [hrest]
        simp only [List.length_append, List.length_cons]
        omega
      cases hgap : gap? false behind with
      | none =>
        obtain ⟨next, hround, hnext⟩ := hfinds.passes hgap
        exact .goesOn hround (ih _ hshort hnext rfl)
      | some found =>
        obtain ⟨gap, more⟩ := found
        obtain ⟨next, front', hround, hnext⟩ := hfinds.masks hgap
        have hlength : gap.length + more.length = behind.length := by
          rw [← List.length_append, append_of_gap? hgap]
        have hclosing := length_fromClosing_le false more
        exact .goesOn hround (ih _ (by omega) hnext rfl)

theorem Finishes.unique {output output' : List Char} (h : s.Finishes field text output)
    (h' : s.Finishes field text output') : output = output' := by
  induction h with
  | ends round =>
    cases h' with
    | ends round' =>
      cases round.symm.trans round'
      rfl
    | goesOn round' => cases round.symm.trans round'
  | goesOn round _ ih =>
    cases h' with
    | ends round' => cases round.symm.trans round'
    | goesOn round' later =>
      cases round.symm.trans round'
      exact ih later

end Scanner

/-! ## The whole scan -/

/-- The scan comes to its end on every text, with one output. -/
theorem scans_iff {field text output : List Char} :
    Scans field text output ↔ output = redactField text field := by
  simp only [Scans, redactField, List.isEmpty_iff]
  split
  · rfl
  · have hstart : Scanner.Stands field text ⟨[], 0, 0⟩ [] [] text := ⟨rfl, rfl, rfl, rfl⟩
    exact ⟨fun h => h.unique hstart.finishes, fun heq => heq ▸ hstart.finishes⟩

/-- **The scan is safe and local.** Whatever the text and the field are, the scan by offsets comes
to an end without a cut out of range or inside a character, and its output is that of `redactField`
and no other. It stops at every name from left to right that begins behind the last name or value,
and masks the value if one follows. So the text is divided into stretches and a rest, and the output
is the same text with the value of each stretch masked. -/
theorem redactField_local (field text : List Char) :
    (∀ output, Scans field text output ↔ output = redactField text field) ∧
      Reads field text (redactField text field) ∧
      ∃ d : Division field, d.text = text ∧ d.masked = redactField text field :=
  ⟨fun _ => scans_iff, reads_redactField field text, masks_redactField field text⟩

/-- A text that is no JSON, with a key in other letters, an escaped character of two bytes and a
value that does not end. -/
example : redactField "é\"PIN\"\t:\"\\é\"\"pin\":\"\\".toList "Pin".toList =
    "é\"PIN\"\t:\"******\"\"pin\":\"******".toList := by
  decide +kernel

end Logbook.Trace.Mask
