import Logbook.Json.Reader

/-! Strings read back. What `renderString` writes is read as the same text and leaves what follows
it, so that two strings at the beginning of one text are the same string. -/

namespace Logbook.Json

namespace Cursor

variable {c : Cursor} {x : Char} {rest : List Char}

@[simp] theorem rest_advance (c : Cursor) : c.advance.rest = c.rest.tail := by
  rw [advance]
  split
  · next h => rw [h]; rfl
  · next h => split <;> rw [h] <;> rfl

@[simp] theorem rest_advanceBy (n : Nat) (c : Cursor) : (c.advanceBy n).rest = c.rest.drop n := by
  induction n generalizing c with
  | zero => rfl
  | succ n ih => rw [advanceBy, ih, rest_advance, List.drop_tail]

theorem next?_of_rest (h : c.rest = x :: rest) : c.next? = some x := by rw [next?, h]; rfl

theorem rest_advance_of_rest (h : c.rest = x :: rest) : c.advance.rest = rest := by
  rw [rest_advance, h]; rfl

theorem skipSpace_of_rest (h : c.rest = x :: rest) (hx : isSpace x = false) : c.skipSpace = c := by
  rw [skipSpace, h, List.takeWhile_cons_of_neg (by rw [hx]; exact Bool.false_ne_true)]
  rfl

end Cursor

/-- A reading succeeds with a value, before the rest of the text. -/
def Leaves {α : Type} (result : Except ReadError (α × Cursor)) (value : α) (rest : List Char) :
    Prop :=
  ∃ c, result = .ok (value, c) ∧ c.rest = rest

variable {c : Cursor} {x : Char} {text rest done : List Char} {fuel : Nat}

/-! ## Escapes -/

/-- The letters that stand for characters behind a backslash. -/
def letters : List (Char × Char) :=
  [('"', '"'), ('\\', '\\'), ('b', Char.ofNat 8), ('f', Char.ofNat 12), ('n', '\n'), ('r', '\r'),
    ('t', '\t')]

/-- A character is written by a letter, by its number or as itself. -/
theorem escape_cases (x : Char) :
    (∃ letter, (letter, x) ∈ letters ∧ escape x = ['\\', letter]) ∨
    (x.toNat < 32 ∧ escape x = '\\' :: 'u' :: '0' :: '0' :: Digits.hexByte x.toNat) ∨
    (escape x = [x] ∧ x ≠ '"' ∧ x ≠ '\\' ∧ ¬x.toNat < 32) := by
  have hx {n : Nat} (h : x.toNat = n) : x = Char.ofNat n := h ▸ (Char.ofNat_toNat x).symm
  have letter {i : Nat} {letter y : Char} (h : x = y) (hmem : letters[i]? = some (letter, y)) :
      ∃ l, (l, x) ∈ letters ∧ ['\\', letter] = ['\\', l] :=
    ⟨letter, h ▸ List.mem_of_getElem? hmem, rfl⟩
  unfold escape
  split
  · next h => exact .inl (letter (i := 0) h rfl)
  split
  · next h => exact .inl (letter (i := 1) h rfl)
  split
  · next h => exact .inl (letter (i := 2) (hx h) rfl)
  split
  · next h => exact .inl (letter (i := 3) (hx h) rfl)
  split
  · next h => exact .inl (letter (i := 4) h rfl)
  split
  · next h => exact .inl (letter (i := 5) h rfl)
  split
  · next h => exact .inl (letter (i := 6) h rfl)
  split
  · next h => exact .inr (.inl ⟨h, rfl⟩)
  · next hquote hslash _ _ _ _ _ hcontrol => exact .inr (.inr ⟨rfl, hquote, hslash, hcontrol⟩)

theorem readEscape_of_letter {letter : Char} (h : (letter, x) ∈ letters)
    (hc : c.next? = some letter) :
    readEscape c = .ok ([x], c.advance) := by
  rw [readEscape, hc]
  simp only [letters, List.mem_cons, Prod.mk.injEq, List.not_mem_nil, or_false] at h
  obtain ⟨rfl, rfl⟩ | ⟨rfl, rfl⟩ | ⟨rfl, rfl⟩ | ⟨rfl, rfl⟩ | ⟨rfl, rfl⟩ | ⟨rfl, rfl⟩ | ⟨rfl, rfl⟩ :=
    h <;> rfl

theorem digit?_hexDigit {d : Nat} (h : d < 16) : Digits.digit? 16 (Digits.hexDigit d) = some d := by
  revert d
  decide

/-- The four digits of a control character are read as its number. -/
theorem leaves_readHex4 {n : Nat} (hn : n < 32)
    (hc : c.rest = '0' :: '0' :: Digits.hexByte n ++ rest) : Leaves (readHex4 c) n rest := by
  have hdigits : (c.rest.take 4).mapM (Digits.digit? 16) = some [0, 0, n / 16, n % 16] := by
    have hzero : Digits.digit? 16 '0' = some 0 := by decide
    have hsix : n / 16 % 16 = n / 16 := Nat.mod_eq_of_lt (by omega)
    have hhigh := digit?_hexDigit (show n / 16 < 16 by omega)
    have hlow := digit?_hexDigit (show n % 16 < 16 by omega)
    rw [hc]
    simp only [Digits.hexByte, hsix, List.cons_append, List.nil_append, List.take_succ_cons,
      List.take_zero, List.mapM_cons, List.mapM_nil, hzero, hhigh, hlow]
    rfl
  refine ⟨c.advanceBy 4, ?_, by rw [Cursor.rest_advanceBy, hc]; rfl⟩
  have hvalue : Digits.ofDigits 16 [0, 0, n / 16, n % 16] = n := by
    simp only [Digits.ofDigits, List.foldl_cons, List.foldl_nil]
    omega
  rw [readHex4, hdigits]
  exact congrArg (fun n => Except.ok (n, c.advanceBy 4)) hvalue

theorem leaves_readUnicodeEscape {n : Nat} (hn : n < 32)
    (hc : c.rest = '0' :: '0' :: Digits.hexByte n ++ rest) :
    Leaves (readUnicodeEscape c) [Char.ofNat n] rest := by
  obtain ⟨c', hread, hrest⟩ := leaves_readHex4 hn hc
  refine ⟨c', ?_, hrest⟩
  rw [readUnicodeEscape, hread]
  change (if _ then _ else _) = _
  rw [if_neg (by omega), if_pos (by omega)]
  rfl

/-- Reading goes on behind a character. -/
def GoesOn (c : Cursor) (x : Char) (rest : List Char) : Prop := ∃ c' : Cursor, c'.rest = rest ∧
  ∀ fuel done, readChars (fuel + 1) done c = readChars fuel (x :: done) c'

theorem goesOn_of_readEscape (hc : c.rest = '\\' :: text)
    (h : Leaves (readEscape c.advance) [x] rest) : GoesOn c x rest := by
  obtain ⟨c', hread, hrest⟩ := h
  refine ⟨c', hrest, fun fuel done => ?_⟩
  rw [readChars, Cursor.next?_of_rest hc]
  change (readEscape c.advance >>= _) = _
  rw [hread]
  rfl

theorem goesOn_of_plain (hc : c.rest = x :: rest) (hquote : x ≠ '"') (hslash : x ≠ '\\')
    (hcontrol : ¬x.toNat < 32) : GoesOn c x rest := by
  refine ⟨c.advance, Cursor.rest_advance_of_rest hc, fun fuel done => ?_⟩
  rw [readChars, Cursor.next?_of_rest hc]
  split
  · next h => cases h
  · next h => exact absurd (Option.some.inj h) hquote
  · next h => exact absurd (Option.some.inj h) hslash
  · next h =>
    obtain rfl := Option.some.inj h
    rw [if_neg hcontrol]

/-- An escaped character is read as itself. -/
theorem goesOn_escape (hc : c.rest = escape x ++ rest) : GoesOn c x rest := by
  rcases escape_cases x with ⟨letter, hletter, hx⟩ | ⟨hcontrol, hx⟩ | ⟨hx, hquote, hslash, hcontrol⟩
  · rw [hx] at hc
    have hadvance := Cursor.rest_advance_of_rest hc
    exact goesOn_of_readEscape hc ⟨_, readEscape_of_letter hletter (Cursor.next?_of_rest hadvance),
      Cursor.rest_advance_of_rest hadvance⟩
  · rw [hx] at hc
    have hadvance := Cursor.rest_advance_of_rest hc
    have hread := leaves_readUnicodeEscape hcontrol (Cursor.rest_advance_of_rest hadvance)
    rw [Char.ofNat_toNat] at hread
    refine goesOn_of_readEscape hc ?_
    rwa [readEscape, Cursor.next?_of_rest hadvance]
  · rw [hx] at hc
    exact goesOn_of_plain hc hquote hslash hcontrol

/-! ## Strings -/

theorem leaves_readChars (hc : c.rest = text.flatMap escape ++ '"' :: rest)
    (hfuel : text.length < fuel) :
    Leaves (readChars fuel done c) (String.ofList (done.reverse ++ text)) rest := by
  induction text generalizing c fuel done with
  | nil =>
    obtain ⟨fuel, rfl⟩ : ∃ n, fuel = n + 1 := ⟨fuel - 1, by omega⟩
    rw [readChars, Cursor.next?_of_rest hc]
    exact ⟨c.advance, by rw [List.append_nil]; rfl, Cursor.rest_advance_of_rest hc⟩
  | cons x text ih =>
    obtain ⟨fuel, rfl⟩ : ∃ n, fuel = n + 1 := ⟨fuel - 1, by omega⟩
    rw [List.flatMap_cons, List.append_assoc] at hc
    obtain ⟨c', hrest, hread⟩ := goesOn_escape hc
    rw [hread]
    have hleaves : Leaves (readChars fuel (x :: done) c') _ rest :=
      ih hrest (Nat.lt_of_succ_lt_succ hfuel)
    rwa [List.reverse_cons, List.append_assoc] at hleaves

theorem length_le_escape (text : List Char) : text.length ≤ (text.flatMap escape).length := by
  have hone (x : Char) : 1 ≤ (escape x).length := by
    rcases escape_cases x with ⟨_, -, hx⟩ | ⟨-, hx⟩ | ⟨hx, -⟩ <;> rw [hx] <;> exact Nat.succ_pos _
  induction text with
  | nil => exact Nat.le_refl _
  | cons x text ih =>
    rw [List.flatMap_cons, List.length_append, List.length_cons]
    have := hone x
    omega

/-- **Strings read back.** A string is read as its text, and what follows it is left. -/
theorem leaves_readString {s : String} (hc : c.rest = renderString s ++ rest) :
    Leaves (readString c.advance) s rest := by
  have hrest : c.advance.rest = s.toList.flatMap escape ++ '"' :: rest := by
    rw [renderString, List.cons_append, List.cons_append, List.append_assoc] at hc
    exact Cursor.rest_advance_of_rest hc
  have hlength := length_le_escape s.toList
  have hfuel : s.toList.length < c.advance.rest.length + 1 := by
    rw [hrest, List.length_append]
    omega
  have hleaves : Leaves (readString c.advance) _ rest := leaves_readChars hrest hfuel
  rwa [List.reverse_nil, List.nil_append, String.ofList_toList] at hleaves

/-- A string at the beginning of a text is determined by the text. -/
theorem renderString_inj {s t : String} {restS restT : List Char}
    (h : renderString s ++ restS = renderString t ++ restT) : s = t ∧ restS = restT := by
  obtain ⟨c, hs, hrestS⟩ := leaves_readString (c := Cursor.start (renderString s ++ restS)) rfl
  obtain ⟨c', ht, hrestT⟩ := leaves_readString (c := Cursor.start (renderString s ++ restS)) h
  rw [hs] at ht
  cases ht
  exact ⟨rfl, hrestS.symm.trans hrestT⟩

end Logbook.Json
