import Logbook.Proofs.Json.Distinct

/-! Values read back. A text that was rendered is read as the value it was rendered from
(`read_render`), if each double alone is: its digits are collected exactly, but the power of ten
that they are scaled with rounds. -/

namespace Logbook.Json

open Decimal (isNumeric)

/-- A double whose text is read as the double. -/
def ReadsBack (x : Float) : Prop := read (renderReal x) = .ok (.real x)

/-- Whether the text of a double is read as the double. -/
def readsBack (x : Float) : Bool :=
  match read (renderReal x) with
  | .ok (.real y) => y.toBits = x.toBits
  | _ => false

theorem readsBack_iff {x : Float} : readsBack x = true ↔ ReadsBack x := by
  rw [readsBack, ReadsBack]
  constructor
  · intro h
    split at h
    · next y hread => rw [hread, Decimal.toBits_inj (of_decide_eq_true h)]
    · cases h
  · intro h
    rw [h]
    exact decide_eq_true rfl

instance : DecidablePred ReadsBack := fun _ => decidable_of_iff _ readsBack_iff

mutual

/-- A value that can be read where lists and objects may stand inside each other to a depth,
exclusive: whole numbers of 64 bits, doubles that are read back, and keys that are not repeated. -/
def Readable : Nat → Json → Prop
  | _, .integer n => -Nat.pow 2 63 ≤ n ∧ n < wholeLimit
  | _, .real x => ReadsBack x
  | depth, .array items => 1 < depth ∧ ReadableItems (depth - 1) items
  | depth, .object members =>
    1 < depth ∧ (members.map (·.1)).Nodup ∧ ReadableMembers (depth - 1) members
  | _, .null | _, .bool _ | _, .string _ => True

def ReadableItems : Nat → List Json → Prop
  | _, [] => True
  | depth, item :: items => Readable depth item ∧ ReadableItems depth items

def ReadableMembers : Nat → List (String × Json) → Prop
  | _, [] => True
  | depth, (_, value) :: members => Readable depth value ∧ ReadableMembers depth members

end

variable {c d : Cursor} {x : Char} {text rest tail : List Char} {negative first : Bool}
  {fuel fuel' depth depth' n k : Nat}

theorem readableItems_of_forall {items : List Json} (h : ∀ item ∈ items, item.Readable depth) :
    ReadableItems depth items := by
  induction items with
  | nil =>
    rw [ReadableItems]
    trivial
  | cons item items ih =>
    rw [ReadableItems]
    exact ⟨h item (.head _), ih fun item hitem => h item (.tail _ hitem)⟩

theorem readableMembers_of_forall {members : List (String × Json)}
    (h : ∀ m ∈ members, m.2.Readable depth) : ReadableMembers depth members := by
  induction members with
  | nil =>
    rw [ReadableMembers]
    trivial
  | cons m members ih =>
    rw [ReadableMembers]
    exact ⟨h m (.head _), ih fun m hm => h m (.tail _ hm)⟩

theorem ReadsBack.isFinite {x : Float} (h : ReadsBack x) : Decimal.isFinite x = true := by
  cases hx : Decimal.isFinite x with
  | true => rfl
  | false =>
    have hnull : read ['n', 'u', 'l', 'l'] = .ok .null := rfl
    rw [ReadsBack, renderReal, hx, if_neg Bool.false_ne_true, hnull] at h
    cases h

mutual

theorem Readable.finite : ∀ {depth : Nat} {v : Json}, v.Readable depth → v.Finite
  | _, .null, _ => by rw [Finite]; trivial
  | _, .bool _, _ => by rw [Finite]; trivial
  | _, .integer _, _ => by rw [Finite]; trivial
  | _, .string _, _ => by rw [Finite]; trivial
  | _, .real x, h => by
    rw [Readable] at h
    rw [Finite]
    exact h.isFinite
  | _, .array items, h => by
    rw [Readable] at h
    rw [Finite]
    exact finite_of_readableItems h.2
  | _, .object members, h => by
    rw [Readable] at h
    rw [Finite]
    exact finite_of_readableMembers h.2.2

theorem finite_of_readableItems : ∀ {depth : Nat} {items : List Json}, ReadableItems depth items →
    FiniteItems items
  | _, [], _ => by rw [FiniteItems]; trivial
  | _, item :: items, h => by
    rw [ReadableItems] at h
    rw [FiniteItems]
    exact ⟨h.1.finite, finite_of_readableItems h.2⟩

theorem finite_of_readableMembers : ∀ {depth : Nat} {members : List (String × Json)},
    ReadableMembers depth members → FiniteMembers members
  | _, [], _ => by rw [FiniteMembers]; trivial
  | _, (_, value) :: members, h => by
    rw [ReadableMembers] at h
    rw [FiniteMembers]
    exact ⟨h.1.finite, finite_of_readableMembers h.2⟩

end

/-! ## Whole numbers -/

theorem leaves_readWhole (h : ∀ c ∈ text, c.isDigit = true) (hc : c.rest = text ++ rest)
    (hrest : Follows rest) (hfuel : text.length ≤ fuel)
    (hlimit : Nat.ofDigitChars 10 text n < wholeLimit) :
    Leaves (readWhole negative fuel n c) (wholeValue negative (Nat.ofDigitChars 10 text n))
      rest := by
  induction text generalizing c fuel n with
  | nil =>
    have hfollows : Follows c.rest := hc ▸ hrest
    rw [readWhole_of_none (isDigit?_of_follows hfollows), readAfterWhole_of_follows n hfollows]
    exact ⟨c, rfl, hc⟩
  | cons x text ih =>
    obtain ⟨fuel, rfl⟩ : ∃ m, fuel = m + 1 := ⟨fuel - 1, by rw [List.length_cons] at hfuel; omega⟩
    rw [Nat.ofDigitChars_cons, Nat.mul_comm] at hlimit ⊢
    have hsmall : n * 10 + (x.toNat - '0'.toNat) < wholeLimit := by
      rw [Nat.ofDigitChars_eq_ofDigitChars_zero] at hlimit
      have := Nat.le_mul_of_pos_left (n * 10 + (x.toNat - '0'.toNat))
        (Nat.pow_pos (n := text.length) (show 0 < 10 by decide))
      omega
    rw [readWhole, isDigit?_of_rest hc, if_pos (h x (.head _))]
    dsimp only
    rw [if_neg (Nat.not_le.mpr hsmall)]
    exact ih (fun c hc => h c (.tail _ hc)) (Cursor.rest_advance_of_rest hc)
      (Nat.le_of_succ_le_succ hfuel) hlimit

/-- Only the digits of zero begin with one. -/
theorem eq_zero_of_head_toDigits (h : Nat.toDigits 10 k = '0' :: text) : k = 0 := by
  have hvalue : Nat.ofDigitChars 10 text 0 = k := by
    rw [← Nat.ofDigitChars_ten_toDigits (n := k), h, Nat.ofDigitChars_cons]
    rfl
  cases text with
  | nil => exact hvalue.symm
  | cons x text =>
    have hdigits : ∀ c ∈ x :: text, c.isDigit = true :=
      fun c hc => isDigit_toDigits (k := k) c (h ▸ .tail _ hc)
    have hshort : k < 10 ^ (x :: text).length := hvalue ▸ Digits.ofDigitChars_lt hdigits
    have hlength := (Nat.length_toDigits_le_iff (by decide) (Nat.succ_pos _)).mpr hshort
    rw [h] at hlength
    exact absurd hlength (Nat.not_succ_le_self _)

theorem leaves_readNumber (hc : c.rest = Nat.toDigits 10 k ++ rest) (hrest : Follows rest)
    (hlimit : k < wholeLimit) : Leaves (readNumber negative c) (wholeValue negative k) rest := by
  cases hdigits : Nat.toDigits 10 k with
  | nil => exact absurd hdigits Nat.toDigits_ne_nil
  | cons x text =>
    have hx : x.isDigit = true := isDigit_toDigits (k := k) x (by rw [hdigits]; exact .head _)
    rw [hdigits] at hc
    by_cases hzero : x = '0'
    · subst hzero
      obtain rfl := eq_zero_of_head_toDigits hdigits
      obtain rfl : text = [] := (List.cons.inj hdigits).2.symm
      have hadvance : c.advance.rest = rest := Cursor.rest_advance_of_rest hc
      have hfollows : Follows c.advance.rest := hadvance ▸ hrest
      refine ⟨c.advance, ?_, hadvance⟩
      rw [readNumber, Cursor.next?_of_rest hc]
      dsimp only
      rw [isDigit?_of_follows hfollows, readAfterWhole_of_follows 0 hfollows]
      rfl
    · have hwhole : Leaves (readWhole negative c.rest.length 0 c) (wholeValue negative k) rest := by
        have hlength : (x :: text).length ≤ c.rest.length := by
          rw [hc, List.length_append]
          omega
        have hvalue : Nat.ofDigitChars 10 (x :: text) 0 = k := by
          rw [← hdigits, Nat.ofDigitChars_ten_toDigits]
        have hleaves : Leaves (readWhole negative c.rest.length 0 c) _ rest :=
          leaves_readWhole (hdigits ▸ isDigit_toDigits (k := k)) hc hrest hlength
            (hvalue.symm ▸ hlimit)
        rwa [hvalue] at hleaves
      rw [readNumber, Cursor.next?_of_rest hc]
      split
      · next h => cases h
      · next h => exact absurd (Option.some.inj h) hzero
      · rwa [isDigit?_of_rest hc, if_pos hx]

/-! ## Numbers -/

/-- No value begins with white space. -/
theorem isSpace_of_kindOf? {kind : Kind} (h : kindOf? x = some kind) :
    Cursor.isSpace x = false := by
  cases hspace : Cursor.isSpace x with
  | false => rfl
  | true => obtain rfl | rfl | rfl | rfl := of_decide_eq_true hspace <;> cases h

theorem kindOf?_of_isNumeric (h : isNumeric x = true) : kindOf? x = some .number := by
  rw [kindOf?, h]
  rfl

theorem readValue_of_digit (hc : c.rest = x :: rest) (hx : x.isDigit = true) :
    readValue (fuel + 1) depth c = readNumber false c := by
  have hspace := isSpace_of_kindOf? (kindOf?_of_isNumeric (Decimal.isNumeric_of_isDigit hx))
  rw [readValue, Cursor.skipSpace_of_rest hc hspace, Cursor.next?_of_rest hc]
  dsimp only
  split
  case h_9 => next x h => obtain rfl := Option.some.inj h; rw [if_pos hx]
  case h_1 => next h => cases h
  all_goals next h => cases Option.some.inj h; cases hx

theorem readValue_of_minus (hc : c.rest = '-' :: rest) :
    readValue (fuel + 1) depth c = readNumber true c.advance := by
  rw [readValue, Cursor.skipSpace_of_rest hc rfl, Cursor.next?_of_rest hc]
  rfl

/-- A whole number of 64 bits is read as itself. -/
theorem leaves_integer {n : Int} (hlow : -Nat.pow 2 63 ≤ n) (hhigh : n < wholeLimit)
    (hrest : Follows rest) (hc : c.rest = (toString n).toList ++ rest) :
    Leaves (readValue (fuel + 1) depth c) (.integer n) rest := by
  have hlimit : n.natAbs < wholeLimit := by
    have : Nat.pow 2 63 < wholeLimit := by decide
    omega
  rw [toList_toString] at hc
  by_cases hnegative : n < 0
  · rw [if_pos hnegative] at hc
    have hvalue : wholeValue true n.natAbs = .integer n := by
      have hrange : ¬(n.natAbs = 0 ∨ Nat.pow 2 63 < n.natAbs) := by omega
      rw [wholeValue, Bool.not_true, if_neg Bool.false_ne_true, if_neg hrange]
      congr 1
      omega
    rw [readValue_of_minus hc, ← hvalue]
    exact leaves_readNumber (Cursor.rest_advance_of_rest hc) hrest hlimit
  · rw [if_neg hnegative, List.nil_append] at hc
    have hvalue : wholeValue false n.natAbs = .integer n := by
      rw [wholeValue, Bool.not_false, if_pos rfl]
      congr 1
      omega
    cases hdigits : Nat.toDigits 10 n.natAbs with
    | nil => exact absurd hdigits Nat.toDigits_ne_nil
    | cons x text =>
      have hx : x.isDigit = true :=
        isDigit_toDigits x (k := n.natAbs) (by rw [hdigits]; exact .head _)
      have hfirst : c.rest = x :: (text ++ rest) := by rw [hc, hdigits]; rfl
      rw [readValue_of_digit hfirst hx, ← hvalue]
      exact leaves_readNumber hc hrest hlimit

/-- What begins as a number does is read alike everywhere. -/
theorem local_readValue (h : Follows tail) (H : c.Extends tail d) (hc : c.rest = x :: rest)
    (hx : isNumeric x = true) :
    Local c tail (readValue (fuel + 1) depth c) (readValue (fuel' + 1) depth' d) := by
  have hd : d.rest = x :: (rest ++ tail) := by
    rw [Cursor.Extends, hc] at H
    exact H
  have hne : c.rest ≠ [] := hc ▸ List.cons_ne_nil x rest
  by_cases hdigit : x.isDigit = true
  · rw [readValue_of_digit hc hdigit, readValue_of_digit hd hdigit]
    exact local_readNumber h H
  by_cases hminus : x = '-'
  · subst hminus
    rw [readValue_of_minus hc, readValue_of_minus hd]
    exact (local_readNumber h (H.advance hne)).of_suffix (suffix_advance c)
  · -- a point, an exponent and a plus begin no value
    have hmark : x = '.' ∨ x = 'e' ∨ x = '+' := by
      simpa [isNumeric, hdigit, hminus, or_assoc] using hx
    have hfails : readValue (fuel + 1) depth c = c.failureAtNext .expectedValue := by
      rw [readValue]
      obtain rfl | rfl | rfl := hmark <;>
        rw [Cursor.skipSpace_of_rest hc rfl, Cursor.next?_of_rest hc] <;> rfl
    rw [hfails]
    exact .failureAtNext

theorem read_eq_ok {v : Json} : read text = .ok v ↔
    ∃ c, readValue (2 * text.length + 2) depthLimit (Cursor.start text) = .ok (v, c) ∧
      c.skipSpace.rest = [] := by
  rw [read]
  cases readValue (2 * text.length + 2) depthLimit (Cursor.start text) with
  | error e => exact ⟨nofun, nofun⟩
  | ok result =>
    obtain ⟨w, c⟩ := result
    change (if c.skipSpace.rest.isEmpty = true then _ else _) = _ ↔ _
    split
    · next h =>
      refine ⟨fun heq => ?_, ?_⟩
      · cases heq
        exact ⟨c, rfl, List.isEmpty_iff.mp h⟩
      · rintro ⟨_, ⟨⟩, -⟩
        rfl
    · next h =>
      refine ⟨fun heq => ?_, ?_⟩
      · unfold Cursor.failureAtNext at heq
        split at heq
        · cases heq
        · split at heq <;> cases heq
      · rintro ⟨_, ⟨⟩, hnil⟩
        exact absurd (List.isEmpty_iff.mpr hnil) h

/-- A double that is read back by itself is read back everywhere. -/
theorem leaves_real {x : Float} (hx : ReadsBack x) (hrest : Follows rest)
    (hc : c.rest = renderReal x ++ rest) :
    Leaves (readValue (fuel + 1) depth c) (.real x) rest := by
  have hnumber : Finite (.real x) := by
    rw [Finite]
    exact hx.isFinite
  obtain ⟨hne, hnumeric⟩ := numeric_render hnumber rfl
  rw [render] at hne hnumeric
  obtain ⟨first, text, htext⟩ := List.exists_cons_of_ne_nil hne
  obtain ⟨c', hread, hend⟩ := read_eq_ok.mp hx
  have hextends : (Cursor.start (renderReal x)).Extends rest c := hc
  have hfirst : isNumeric first = true := hnumeric first (htext ▸ .head _)
  obtain ⟨hsuffix, hleaves⟩ := local_readValue hrest hextends htext hfirst _ _ hread
  have hnil : c'.rest = [] := by
    cases hleft : c'.rest with
    | nil => rfl
    | cons y left =>
      have hy : isNumeric y = true := hnumeric y (hsuffix.subset (hleft ▸ .head _))
      have hspace := isSpace_of_kindOf? (kindOf?_of_isNumeric hy)
      rw [Cursor.skipSpace_of_rest hleft hspace, hleft] at hend
      cases hend
  rwa [hnil, List.nil_append] at hleaves

/-! ## Lists and objects -/

theorem leaves_readWord {word : List Char} (hc : c.rest = word ++ rest) :
    ∃ c', readWord word c = .ok c' ∧ c'.rest = rest := by
  induction word generalizing c with
  | nil => exact ⟨c, rfl, hc⟩
  | cons w word ih =>
    rw [List.cons_append] at hc
    rw [readWord, hc]
    dsimp only
    rw [if_pos rfl]
    exact ih (Cursor.rest_advance_of_rest hc)

theorem length_pos_render {v : Json} (hv : v.Finite) : 0 < v.render.length := by
  obtain ⟨x, text, hrender, -⟩ := kindOf?_head hv
  rw [hrender]
  exact Nat.succ_pos _

theorem length_renderItems_cons (item : Json) (items : List Json) :
    item.render.length + (renderItems items).length ≤ (renderItems (item :: items)).length := by
  have hlength := congrArg List.length (renderItems_cons item items [])
  cases items with
  | nil =>
    rw [renderItems, renderItems]
    exact Nat.le_refl _
  | cons next items =>
    simp only [afterItem, List.length_append, List.length_cons] at hlength
    omega

theorem length_renderMembers_cons (key : String) (value : Json) (members : List (String × Json)) :
    value.render.length + (renderMembers members).length <
      (renderMembers ((key, value) :: members)).length := by
  have hlength := congrArg List.length (renderMembers_cons key value members [])
  cases members with
  | nil =>
    simp only [afterMember, List.length_append, List.length_cons, List.length_nil, renderMembers]
      at hlength ⊢
    omega
  | cons next members =>
    simp only [afterMember, List.length_append, List.length_cons] at hlength
    omega

/-- A value at the beginning of a text follows white space nowhere and no comma or bracket. -/
theorem exists_head {v : Json} (hv : v.Finite) (hc : c.rest = v.render ++ rest) :
    ∃ x, c.next? = some x ∧ c.skipSpace = c ∧ (kindOf? x).isSome = true := by
  obtain ⟨x, text, hrender, hkind⟩ := kindOf?_head hv
  rw [hrender, List.cons_append] at hc
  exact ⟨x, Cursor.next?_of_rest hc, Cursor.skipSpace_of_rest hc (isSpace_of_kindOf? hkind),
    hkind ▸ rfl⟩

/-- The next item of a list begins here, or behind a comma. -/
theorem itemStart_of_rest {item : Json} (hitem : item.Finite)
    (hc : c.rest = if first then item.render ++ text else ',' :: (item.render ++ text)) :
    ∃ x c', c.skipSpace = c ∧ c.next? = some x ∧ x ≠ ']' ∧ itemStart first x c = .ok c' ∧
      c'.rest = item.render ++ text := by
  have hnot {x : Char} (h : (kindOf? x).isSome = true) : x ≠ ']' := by
    rintro rfl
    cases h
  cases first with
  | true =>
    obtain ⟨x, hnext, hskip, hkind⟩ := exists_head hitem hc
    exact ⟨x, c, hskip, hnext, hnot hkind, rfl, hc⟩
  | false =>
    have hadvance : c.advance.rest = item.render ++ text := Cursor.rest_advance_of_rest hc
    obtain ⟨x, hnext, hskip, hkind⟩ := exists_head hitem hadvance
    refine ⟨',', c.advance, Cursor.skipSpace_of_rest hc rfl, Cursor.next?_of_rest hc, by decide, ?_,
      hadvance⟩
    rw [itemStart, if_neg Bool.false_ne_true, if_pos rfl]
    dsimp only
    rw [hskip, hnext]
    split
    · next h => cases h
    · next h => exact absurd (Option.some.inj h) (hnot hkind)
    · rfl

theorem readItems_of_item {c' c'' : Cursor} {item : Json} {done : List Json}
    (hskip : c.skipSpace = c)
    (hnext : c.next? = some x) (hx : x ≠ ']') (hstart : itemStart first x c = .ok c')
    (hread : readValue fuel depth c' = .ok (item, c'')) :
    readItems (fuel + 1) depth first done c = readItems fuel depth false (item :: done) c'' := by
  rw [readItems, hskip, hnext]
  dsimp only
  split
  · next h => cases h
  · next h => exact absurd (Option.some.inj h) hx
  · next h =>
    obtain rfl := Option.some.inj h
    rw [hstart]
    change (readValue fuel depth c' >>= _) = _
    rw [hread]
    rfl

/-- The next key of an object begins here, or behind a comma. -/
theorem keyStart_of_rest {key : String}
    (hc : c.rest = if first then renderString key ++ text else ',' :: (renderString key ++ text)) :
    ∃ x c', c.skipSpace = c ∧ c.next? = some x ∧ x ≠ '\x7d' ∧ keyStart first x c = .ok c' ∧
      c'.rest = renderString key ++ text := by
  cases first with
  | true =>
    exact ⟨'"', c, Cursor.skipSpace_of_rest hc rfl, Cursor.next?_of_rest hc, by decide, rfl, hc⟩
  | false =>
    have hadvance : c.advance.rest = renderString key ++ text := Cursor.rest_advance_of_rest hc
    refine ⟨',', c.advance, Cursor.skipSpace_of_rest hc rfl, Cursor.next?_of_rest hc, by decide, ?_,
      hadvance⟩
    rw [keyStart, if_neg Bool.false_ne_true, if_pos rfl]
    dsimp only
    rw [Cursor.skipSpace_of_rest hadvance rfl, Cursor.next?_of_rest hadvance]
    rfl

theorem readMembers_of_member {c₁ c₂ c₃ : Cursor} {key : String} {value : Json}
    {done : List (String × Json)} (hskip : c.skipSpace = c) (hnext : c.next? = some x)
    (hx : x ≠ '\x7d') (hstart : keyStart first x c = .ok c₁)
    (hkey : readString c₁.advance = .ok (key, c₂)) (hcolon : c₂.rest = ':' :: rest)
    (hread : readValue fuel depth c₂.advance = .ok (value, c₃)) :
    readMembers (fuel + 1) depth first done c =
      readMembers fuel depth false (setMember key value done) c₃ := by
  rw [readMembers, hskip, hnext]
  dsimp only
  split
  · next h => cases h
  · next h => exact absurd (Option.some.inj h) hx
  · next h =>
    obtain rfl := Option.some.inj h
    have hspace := Cursor.skipSpace_of_rest hcolon rfl
    have hnext := Cursor.next?_of_rest hcolon
    simp only [hstart, hkey, hspace, hnext, hread, bind, Except.bind]

/-- A new key goes last. -/
theorem setMember_of_fresh {key : String} {members : List (String × Json)}
    (h : key ∉ members.map (·.1)) (value : Json) :
    setMember key value members = members ++ [(key, value)] := by
  induction members with
  | nil => rfl
  | cons member members ih =>
    rw [List.map_cons, List.mem_cons, not_or] at h
    rw [setMember, if_neg (Ne.symm h.1), ih h.2]
    rfl

/-! ## Values -/

mutual

/-- **Values read back.** A value that can be read is read from its text, and what follows is
left. -/
theorem leaves_readValue : ∀ {v : Json} {depth fuel : Nat} {c : Cursor} {rest : List Char},
    v.Readable depth → Follows rest → 2 * v.render.length ≤ fuel + 1 → c.rest = v.render ++ rest →
    Leaves (readValue (fuel + 1) depth c) v rest
  | .null, _, _, c, rest, _, _, _, hc => by
    rw [readValue, Cursor.skipSpace_of_rest hc rfl, Cursor.next?_of_rest hc]
    obtain ⟨c', hword, hrest⟩ := leaves_readWord (Cursor.rest_advance_of_rest hc)
    exact ⟨c', congrArg (Except.map _) hword, hrest⟩
  | .bool true, _, _, c, rest, _, _, _, hc => by
    rw [readValue, Cursor.skipSpace_of_rest hc rfl, Cursor.next?_of_rest hc]
    obtain ⟨c', hword, hrest⟩ := leaves_readWord (Cursor.rest_advance_of_rest hc)
    exact ⟨c', congrArg (Except.map _) hword, hrest⟩
  | .bool false, _, _, c, rest, _, _, _, hc => by
    rw [readValue, Cursor.skipSpace_of_rest hc rfl, Cursor.next?_of_rest hc]
    obtain ⟨c', hword, hrest⟩ := leaves_readWord (Cursor.rest_advance_of_rest hc)
    exact ⟨c', congrArg (Except.map _) hword, hrest⟩
  | .integer n, _, _, c, rest, h, hrest, _, hc => by
    rw [Readable] at h
    rw [render] at hc
    exact leaves_integer h.1 h.2 hrest hc
  | .real x, _, _, c, rest, h, hrest, _, hc => by
    rw [Readable] at h
    rw [render] at hc
    exact leaves_real h hrest hc
  | .string text, _, _, c, rest, _, _, _, hc => by
    rw [render] at hc
    rw [readValue, Cursor.skipSpace_of_rest hc rfl, Cursor.next?_of_rest hc]
    obtain ⟨c', hstring, hrest⟩ := leaves_readString hc
    exact ⟨c', congrArg (Except.map _) hstring, hrest⟩
  | .array items, depth, fuel, c, rest, h, _, hfuel, hc => by
    rw [Readable] at h
    rw [render] at hc hfuel
    have hadvance : c.advance.rest = renderItems items ++ ']' :: rest := by
      rw [Cursor.rest_advance, hc]
      simp
    obtain ⟨fuel, rfl⟩ : ∃ n, fuel = n + 1 := ⟨fuel - 1, by simp at hfuel; omega⟩
    have hlength : 2 * (renderItems items).length ≤ fuel := by simp at hfuel; omega
    have hleaves :
        Leaves (readItems (fuel + 1) (depth - 1) true [] c.advance) (.array items) rest :=
      leaves_readItems h.2 hlength hadvance
    obtain ⟨c', hread, hrest⟩ := hleaves
    refine ⟨c', ?_, hrest⟩
    rw [readValue, Cursor.skipSpace_of_rest hc rfl, Cursor.next?_of_rest hc]
    exact (if_neg (Nat.not_le.mpr h.1)).trans hread
  | .object members, depth, fuel, c, rest, h, _, hfuel, hc => by
    rw [Readable] at h
    rw [render] at hc hfuel
    have hadvance : c.advance.rest = renderMembers members ++ '\x7d' :: rest := by
      rw [Cursor.rest_advance, hc]
      simp
    obtain ⟨fuel, rfl⟩ : ∃ n, fuel = n + 1 := ⟨fuel - 1, by simp at hfuel; omega⟩
    have hlength : 2 * (renderMembers members).length ≤ fuel := by simp at hfuel; omega
    have hleaves : Leaves (readMembers (fuel + 1) (depth - 1) true [] c.advance) (.object members)
        rest := leaves_readMembers h.2.2 h.2.1 hlength hadvance
    obtain ⟨c', hread, hrest⟩ := hleaves
    refine ⟨c', ?_, hrest⟩
    rw [readValue, Cursor.skipSpace_of_rest hc rfl, Cursor.next?_of_rest hc]
    exact (if_neg (Nat.not_le.mpr h.1)).trans hread

theorem leaves_readItems :
    ∀ {items : List Json} {depth fuel : Nat} {first : Bool} {done : List Json} {c : Cursor}
    {rest : List Char}, ReadableItems depth items →
    2 * (renderItems items).length ≤ fuel →
    (c.rest = if first then renderItems items ++ ']' :: rest else afterItem rest items) →
    Leaves (readItems (fuel + 1) depth first done c) (.array (done.reverse ++ items)) rest
  | [], _, _, first, done, c, rest, _, _, hc => by
    have hc : c.rest = ']' :: rest := by cases first <;> exact hc
    rw [readItems, Cursor.skipSpace_of_rest hc rfl, Cursor.next?_of_rest hc, List.append_nil]
    exact ⟨c.advance, rfl, Cursor.rest_advance_of_rest hc⟩
  | item :: items, depth, fuel, first, done, c, rest, h, hfuel, hc => by
    rw [ReadableItems] at h
    have hlength := length_renderItems_cons item items
    have hpos := length_pos_render h.1.finite
    obtain ⟨fuel, rfl⟩ : ∃ n, fuel = n + 1 := ⟨fuel - 1, by omega⟩
    have hc : c.rest = if first then item.render ++ afterItem rest items
        else ',' :: (item.render ++ afterItem rest items) := by
      cases first with
      | true => rw [hc, if_pos rfl, if_pos rfl, renderItems_cons]
      | false =>
        rw [hc, if_neg Bool.false_ne_true, if_neg Bool.false_ne_true, ← renderItems_cons]
        rfl
    obtain ⟨x, c', hskip, hnext, hx, hstart, hrest⟩ := itemStart_of_rest h.1.finite hc
    have hitem : Leaves (readValue (fuel + 1) depth c') item (afterItem rest items) :=
      leaves_readValue h.1 (follows_afterItem rest items) (by omega) hrest
    obtain ⟨c'', hread, hafter⟩ := hitem
    rw [readItems_of_item hskip hnext hx hstart hread]
    have hleaves : Leaves (readItems (fuel + 1) depth false (item :: done) c'') _ rest :=
      leaves_readItems h.2 (by omega) hafter
    rwa [List.reverse_cons, List.append_assoc] at hleaves

theorem leaves_readMembers : ∀ {members : List (String × Json)} {depth fuel : Nat} {first : Bool}
    {done : List (String × Json)} {c : Cursor} {rest : List Char}, ReadableMembers depth members →
    ((done ++ members).map (·.1)).Nodup → 2 * (renderMembers members).length ≤ fuel →
    (c.rest = if first then renderMembers members ++ '\x7d' :: rest else afterMember rest members) →
    Leaves (readMembers (fuel + 1) depth first done c) (.object (done ++ members)) rest
  | [], _, _, first, done, c, rest, _, _, _, hc => by
    have hc : c.rest = '\x7d' :: rest := by cases first <;> exact hc
    rw [readMembers, Cursor.skipSpace_of_rest hc rfl, Cursor.next?_of_rest hc, List.append_nil]
    exact ⟨c.advance, rfl, Cursor.rest_advance_of_rest hc⟩
  | (key, value) :: members, depth, fuel, first, done, c, rest, h, hkeys, hfuel, hc => by
    rw [ReadableMembers] at h
    have hlength := length_renderMembers_cons key value members
    obtain ⟨fuel, rfl⟩ : ∃ n, fuel = n + 1 := ⟨fuel - 1, by omega⟩
    have hc : c.rest = if first
        then renderString key ++ ':' :: (value.render ++ afterMember rest members)
        else ',' :: (renderString key ++ ':' :: (value.render ++ afterMember rest members)) := by
      cases first with
      | true => rw [hc, if_pos rfl, if_pos rfl, renderMembers_cons]
      | false =>
        rw [hc, if_neg Bool.false_ne_true, if_neg Bool.false_ne_true, ← renderMembers_cons]
        rfl
    obtain ⟨x, c₁, hskip, hnext, hx, hstart, hrest⟩ := keyStart_of_rest hc
    obtain ⟨c₂, hkey, hcolon⟩ := leaves_readString hrest
    have hvalue : Leaves (readValue (fuel + 1) depth c₂.advance) value (afterMember rest members) :=
      leaves_readValue h.1 (follows_afterMember rest members) (by omega)
        (Cursor.rest_advance_of_rest hcolon)
    obtain ⟨c₃, hread, hafter⟩ := hvalue
    have hfresh : key ∉ done.map (·.1) := by
      rw [List.map_append, List.nodup_append] at hkeys
      exact fun hmem => hkeys.2.2 key hmem key (.head _) rfl
    have happend : done ++ (key, value) :: members = (done ++ [(key, value)]) ++ members := by
      rw [List.append_assoc]
      rfl
    rw [readMembers_of_member hskip hnext hx hstart hkey hcolon hread, setMember_of_fresh hfresh,
      happend]
    rw [happend] at hkeys
    exact leaves_readMembers h.2 hkeys (by omega) hafter

end

/-- **What was rendered is read back**, if it can be read at all. -/
theorem read_render {v : Json} (h : v.Readable depthLimit) : read v.render = .ok v := by
  have hc : (Cursor.start v.render).rest = v.render ++ [] := (List.append_nil _).symm
  have hleaves :
      Leaves (readValue (2 * v.render.length + 1 + 1) depthLimit (Cursor.start v.render)) v [] :=
    leaves_readValue h .nil (by omega) hc
  obtain ⟨c, hread, hrest⟩ := hleaves
  refine read_eq_ok.mpr ⟨c, hread, ?_⟩
  rw [Cursor.skipSpace, Cursor.rest_advanceBy, hrest]
  rfl

end Logbook.Json
