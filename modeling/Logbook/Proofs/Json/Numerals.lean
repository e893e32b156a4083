import Mathlib.Data.List.Basic
import Logbook.Proofs.Json.Strings

/-! Numbers in a text. A number ends where no digit, point or exponent goes on, so it is read alike
at any place and before anything that may follow a value (`local_readNumber`). -/

namespace Logbook.Json

/-- What may stand behind a value: nothing, or a character that no number goes on with. -/
def Follows (rest : List Char) : Prop := ∀ x ∈ rest.head?, x = ',' ∨ x = ']' ∨ x = '\x7d'

/-- The text at `d` is that at `c` and something more. -/
def Cursor.Extends (tail : List Char) (c d : Cursor) : Prop := d.rest = c.rest ++ tail

variable {c c' d d' : Cursor} {x : Char} {rest tail : List Char} {negative : Bool}
  {fuel fuel' n : Nat} {e : Int}

theorem Follows.nil : Follows [] := nofun

theorem Follows.isDigit (h : Follows rest) : ∀ x ∈ rest.head?, x.isDigit = false := by
  intro x hx
  obtain rfl | rfl | rfl := h x hx <;> decide

/-- At the end of a text, what follows is all of the longer text. -/
theorem Follows.of_extends (h : Follows tail) (H : c.Extends tail d) (hc : c.rest = []) :
    Follows d.rest := by
  rw [Cursor.Extends, hc] at H
  rw [H]
  exact h

theorem Follows.of_nil (hc : c.rest = []) : Follows c.rest := by
  rw [hc]
  exact .nil

/-! ## Cursors in a longer text -/

theorem Cursor.Extends.advance (H : c.Extends tail d) (hc : c.rest ≠ []) :
    c.advance.Extends tail d.advance := by
  rw [Extends, rest_advance, rest_advance, H, List.tail_append_of_ne_nil hc]

theorem Cursor.Extends.next? (H : c.Extends tail d) (hc : c.rest ≠ []) : d.next? = c.next? := by
  rw [Cursor.next?, Cursor.next?, H]
  exact List.head?_append_of_ne_nil _ hc

theorem Cursor.Extends.length_le (H : c.Extends tail d) : c.rest.length ≤ d.rest.length := by
  rw [H, List.length_append]
  omega

theorem isDigit?_of_rest (h : c.rest = x :: rest) :
    isDigit? c = if x.isDigit then some (x.toNat - '0'.toNat) else none := by
  rw [isDigit?, Cursor.next?_of_rest h]; rfl

theorem isDigit?_of_follows (h : Follows c.rest) : isDigit? c = none := by
  cases hrest : c.rest with
  | nil => rw [isDigit?, Cursor.next?, hrest]; rfl
  | cons x rest =>
    have hx : x.isDigit = false := h.isDigit x (hrest ▸ rfl)
    rw [isDigit?_of_rest hrest, hx, if_neg Bool.false_ne_true]

theorem isDigit?_of_length (h : c.rest.length ≤ 0) : isDigit? c = none :=
  isDigit?_of_follows (.of_nil (List.length_eq_zero_iff.mp (Nat.le_zero.mp h)))

theorem ne_nil_of_isDigit? (h : isDigit? c = some n) : c.rest ≠ [] := by
  intro hnil
  rw [isDigit?_of_follows (.of_nil hnil)] at h
  cases h

theorem ne_nil_of_next? (h : c.next? = some x) : c.rest ≠ [] := by
  intro hnil
  rw [Cursor.next?, hnil] at h
  cases h

theorem length_advance (h : c.rest ≠ []) : c.rest.length = c.advance.rest.length + 1 := by
  rw [Cursor.rest_advance, List.length_tail]
  have := List.length_pos_of_ne_nil h
  omega

/-- As long as a text is left, so is fuel. -/
theorem exists_fuel (h : c.rest ≠ []) (hfuel : c.rest.length ≤ fuel) :
    ∃ m, fuel = m + 1 ∧ c.advance.rest.length ≤ m := by
  have hlength := length_advance h
  exact ⟨fuel - 1, by omega, by omega⟩

theorem isDigit?_extends (h : Follows tail) (H : c.Extends tail d) : isDigit? d = isDigit? c := by
  by_cases hc : c.rest = []
  · rw [isDigit?_of_follows (h.of_extends H hc), isDigit?_of_follows (.of_nil hc)]
  · rw [isDigit?, isDigit?, H.next? hc]

theorem takeWhile_isDigit_append (h : Follows tail) :
    (rest ++ tail).takeWhile Char.isDigit = rest.takeWhile Char.isDigit := by
  induction rest with
  | nil =>
    cases tail with
    | nil => rfl
    | cons x tail =>
      exact List.takeWhile_cons_of_neg (by rw [h.isDigit x rfl]; exact Bool.false_ne_true)
  | cons x rest ih => rw [List.cons_append, List.takeWhile_cons, List.takeWhile_cons, ih]

theorem takeWhile_isDigit_extends (h : Follows tail) (H : c.Extends tail d) :
    d.rest.takeWhile Char.isDigit = c.rest.takeWhile Char.isDigit := by
  rw [H]
  exact takeWhile_isDigit_append h

theorem skipDigits_extends (h : Follows tail) (H : c.Extends tail d) :
    (skipDigits c).Extends tail (skipDigits d) := by
  rw [Cursor.Extends, skipDigits, skipDigits, Cursor.rest_advanceBy, Cursor.rest_advanceBy,
    takeWhile_isDigit_extends h H, H]
  exact List.drop_append_of_le_length (List.takeWhile_prefix _).length_le

theorem suffix_advance (c : Cursor) : c.advance.rest <:+ c.rest := by
  rw [Cursor.rest_advance]
  exact List.tail_suffix _

theorem suffix_skipDigits (c : Cursor) : (skipDigits c).rest <:+ c.rest := by
  rw [skipDigits, Cursor.rest_advanceBy]
  exact List.drop_suffix _ _

/-! ## Readings that stop -/

/-- A reading that succeeds takes a beginning of the text, and the same one in a longer text. -/
def Local {α : Type} (c : Cursor) (tail : List Char)
    (result longer : Except ReadError (α × Cursor)) :
    Prop := ∀ a c', result = .ok (a, c') → c'.rest <:+ c.rest ∧ Leaves longer a (c'.rest ++ tail)

namespace Local

variable {α β : Type} {result longer : Except ReadError (α × Cursor)}

theorem map {f : α → β} (H : Local c tail result longer) :
    Local c tail (result.map fun (a, c) => (f a, c)) (longer.map fun (a, c) => (f a, c)) := by
  intro b c' h
  cases hresult : result with
  | error p => rw [hresult] at h; cases h
  | ok r =>
    obtain ⟨a, d⟩ := r
    rw [hresult] at h
    cases h
    obtain ⟨hsuffix, d', hlonger, hrest⟩ := H a c' hresult
    exact ⟨hsuffix, d', by rw [hlonger]; rfl, hrest⟩

theorem of_suffix (H : Local c' tail result longer) (h : c'.rest <:+ c.rest) :
    Local c tail result longer :=
  fun a d hresult => ⟨(H a d hresult).1.trans h, (H a d hresult).2⟩

theorem error {p : ReadError} : Local c tail (.error p) longer := nofun

theorem failureAtNext {p : Problem} : Local c tail (c'.failureAtNext p) longer := by
  unfold Cursor.failureAtNext
  split
  · exact .error
  · split <;> exact .error

theorem ok (a : α) (h : c'.rest <:+ c.rest) (H : c'.Extends tail d') :
    Local c tail (.ok (a, c')) (.ok (a, d')) := by
  rintro _ _ ⟨⟩
  exact ⟨h, d', rfl, H⟩

end Local

/-! ## Doubles -/

theorem local_scale (x : Float) (H : c.Extends tail d) :
    Local c tail (scale c fuel x e) (scale d fuel x e) := by
  induction fuel generalizing x e with
  | zero => exact .ok x (List.suffix_refl _) H
  | succ fuel ih =>
    rw [scale, scale]
    dsimp only
    split
    · split
      · split
        · exact .ok _ (List.suffix_refl _) H
        · exact .error
      · exact .ok _ (List.suffix_refl _) H
    · split
      · exact .ok _ (List.suffix_refl _) H
      · split
        · exact .error
        · exact ih _

theorem local_readDouble (digits : Nat) (H : c.Extends tail d) :
    Local c tail (readDouble negative digits e c) (readDouble negative digits e d) :=
  Local.map (f := fun x => if negative then -x else x) (local_scale _ H)

theorem exponentDigits_of_none (h : isDigit? c = none) : exponentDigits fuel n c = (some n, c) := by
  cases fuel with
  | zero => rfl
  | succ fuel => rw [exponentDigits, h]

theorem exponentDigits_extends (h : Follows tail) (H : c.Extends tail d)
    (hfuel : c.rest.length ≤ fuel)
    (hfuel' : c.rest.length ≤ fuel') : (exponentDigits fuel n c).2.rest <:+ c.rest ∧
      (exponentDigits fuel' n d).1 = (exponentDigits fuel n c).1 ∧
      (exponentDigits fuel n c).2.Extends tail (exponentDigits fuel' n d).2 := by
  induction fuel generalizing fuel' n c d with
  | zero =>
    have hnone := isDigit?_of_length hfuel
    rw [exponentDigits_of_none hnone, exponentDigits_of_none ((isDigit?_extends h H).trans hnone)]
    exact ⟨List.suffix_refl _, rfl, H⟩
  | succ fuel ih =>
    have hlonger := isDigit?_extends h H
    cases hdigit : isDigit? c with
    | none =>
      rw [exponentDigits_of_none hdigit, exponentDigits_of_none (hlonger.trans hdigit)]
      exact ⟨List.suffix_refl _, rfl, H⟩
    | some digit =>
      have hne := ne_nil_of_isDigit? hdigit
      obtain ⟨_, ⟨⟩, hleft⟩ := exists_fuel hne hfuel
      obtain ⟨fuel', rfl, hleft'⟩ := exists_fuel hne hfuel'
      rw [exponentDigits, exponentDigits, hlonger, hdigit]
      dsimp only
      split
      · exact ⟨suffix_advance c, rfl, H.advance hne⟩
      · obtain ⟨hsuffix, hdigits, hextends⟩ := ih (n := n * 10 + digit) (H.advance hne)
          hleft hleft'
        exact ⟨hsuffix.trans (suffix_advance c), hdigits, hextends⟩

theorem local_readPower (start : Int) (digits : Nat) (positive : Bool) (h : Follows tail)
    (H : c.Extends tail d) : Local c tail (readPower negative digits start positive c)
      (readPower negative digits start positive d) := by
  rw [readPower, readPower]
  cases hnext : c.next? with
  | none => exact .error
  | some x =>
    have hne := ne_nil_of_next? hnext
    rw [H.next? hne, hnext, isDigit?_extends h H]
    cases hdigit : isDigit? c with
    | none => exact .failureAtNext
    | some digit =>
      have hfuel := (suffix_advance c).length_le
      obtain ⟨hsuffix, hdigits, hextends⟩ :=
        exponentDigits_extends (n := digit) h (H.advance hne) hfuel (Nat.le_trans hfuel H.length_le)
      have hsuffix := hsuffix.trans (suffix_advance c)
      dsimp only
      rcases hshort : exponentDigits c.rest.length digit c.advance with ⟨e, c'⟩
      rcases hlong : exponentDigits d.rest.length digit d.advance with ⟨e', d'⟩
      rw [hshort] at hsuffix
      rw [hshort, hlong] at hdigits hextends
      obtain rfl : e' = e := hdigits
      cases e' with
      | some e => exact (local_readDouble digits hextends).of_suffix hsuffix
      | none =>
        dsimp only
        split
        · exact .error
        · exact .ok _ ((suffix_skipDigits c').trans hsuffix) (skipDigits_extends h hextends)

theorem suffix_exponentSign (c : Cursor) : (exponentSign c).2.rest <:+ c.rest := by
  unfold exponentSign
  split
  · exact suffix_advance c
  · exact suffix_advance c
  · exact List.suffix_refl _

theorem exponentSign_extends (H : c.Extends tail d) (hc : c.rest ≠ []) :
    (exponentSign d).1 = (exponentSign c).1 ∧
      (exponentSign c).2.Extends tail (exponentSign d).2 := by
  rw [exponentSign, exponentSign, H.next? hc]
  split
  · exact ⟨rfl, H.advance hc⟩
  · exact ⟨rfl, H.advance hc⟩
  · exact ⟨rfl, H⟩

theorem local_readExponent (start : Int) (digits : Nat) (h : Follows tail) (H : c.Extends tail d)
    (hc : c.rest ≠ []) : Local c tail (readExponent negative digits start c)
      (readExponent negative digits start d) := by
  rw [readExponent, readExponent]
  by_cases hnil : c.advance.rest = []
  · have hnext : c.advance.next? = none := by rw [Cursor.next?, hnil]; rfl
    rw [exponentSign, hnext]
    dsimp only
    rw [readPower, hnext]
    exact .error
  · obtain ⟨hsign, hextends⟩ := exponentSign_extends (H.advance hc) hnil
    dsimp only
    rw [hsign]
    exact (local_readPower start digits _ h hextends).of_suffix
      ((suffix_exponentSign c.advance).trans (suffix_advance c))

theorem readOptionalExponent_of_follows (digits : Nat) (h : Follows c.rest) :
    readOptionalExponent negative digits e c = readDouble negative digits e c := by
  rw [readOptionalExponent, Cursor.next?]
  cases hrest : c.rest with
  | nil => rfl
  | cons x rest => obtain rfl | rfl | rfl := h x (hrest ▸ rfl) <;> rfl

theorem local_readOptionalExponent (digits : Nat) (h : Follows tail) (H : c.Extends tail d) :
    Local c tail (readOptionalExponent negative digits e c)
      (readOptionalExponent negative digits e d) := by
  by_cases hc : c.rest = []
  · rw [readOptionalExponent_of_follows digits (.of_nil hc),
      readOptionalExponent_of_follows digits (h.of_extends H hc)]
    exact local_readDouble digits H
  · rw [readOptionalExponent, readOptionalExponent, H.next? hc]
    split
    · exact local_readExponent e digits h H hc
    · exact local_readExponent e digits h H hc
    · exact local_readDouble digits H

theorem fractionDigits_of_none (h : isDigit? c = none) : fractionDigits fuel n e c = (n, e, c) := by
  cases fuel with
  | zero => rfl
  | succ fuel => rw [fractionDigits, h]

theorem fractionDigits_extends (h : Follows tail) (H : c.Extends tail d)
    (hfuel : c.rest.length ≤ fuel)
    (hfuel' : c.rest.length ≤ fuel') : (fractionDigits fuel n e c).2.2.rest <:+ c.rest ∧
      (fractionDigits fuel' n e d).1 = (fractionDigits fuel n e c).1 ∧
      (fractionDigits fuel' n e d).2.1 = (fractionDigits fuel n e c).2.1 ∧
      (fractionDigits fuel n e c).2.2.Extends tail (fractionDigits fuel' n e d).2.2 := by
  induction fuel generalizing fuel' n e c d with
  | zero =>
    have hnone := isDigit?_of_length hfuel
    rw [fractionDigits_of_none hnone, fractionDigits_of_none ((isDigit?_extends h H).trans hnone)]
    exact ⟨List.suffix_refl _, rfl, rfl, H⟩
  | succ fuel ih =>
    have hlonger := isDigit?_extends h H
    cases hdigit : isDigit? c with
    | none =>
      rw [fractionDigits_of_none hdigit, fractionDigits_of_none (hlonger.trans hdigit)]
      exact ⟨List.suffix_refl _, rfl, rfl, H⟩
    | some digit =>
      have hne := ne_nil_of_isDigit? hdigit
      obtain ⟨_, ⟨⟩, hleft⟩ := exists_fuel hne hfuel
      obtain ⟨fuel', rfl, hleft'⟩ := exists_fuel hne hfuel'
      rw [fractionDigits, fractionDigits, hlonger, hdigit]
      dsimp only
      split
      · exact ⟨suffix_skipDigits c, rfl, rfl, skipDigits_extends h H⟩
      · obtain ⟨hsuffix, hdigits, hpower, hextends⟩ := ih (n := n * 10 + digit) (e := e - 1)
          (H.advance hne) hleft hleft'
        exact ⟨hsuffix.trans (suffix_advance c), hdigits, hpower, hextends⟩

theorem local_readFraction (digits : Nat) (h : Follows tail) (H : c.Extends tail d)
    (hc : c.rest ≠ []) :
    Local c tail (readFraction negative digits e c) (readFraction negative digits e d) := by
  have hadvance := H.advance hc
  rw [readFraction, readFraction, isDigit?_extends h hadvance]
  cases hdigit : isDigit? c.advance with
  | none => exact .failureAtNext
  | some digit =>
    obtain ⟨hsuffix, hdigits, hpower, hextends⟩ := fractionDigits_extends (n := digits) (e := e) h
      hadvance (Nat.le_refl _) hadvance.length_le
    dsimp only
    rw [hdigits, hpower]
    exact (local_readOptionalExponent _ h hextends).of_suffix (hsuffix.trans (suffix_advance c))

/-! ## Numbers -/

theorem readAfterWhole_of_follows (digits : Nat) (h : Follows c.rest) :
    readAfterWhole negative digits c = .ok (wholeValue negative digits, c) := by
  rw [readAfterWhole, Cursor.next?]
  cases hrest : c.rest with
  | nil => rfl
  | cons x rest => obtain rfl | rfl | rfl := h x (hrest ▸ rfl) <;> rfl

theorem local_readAfterWhole (digits : Nat) (h : Follows tail) (H : c.Extends tail d) :
    Local c tail (readAfterWhole negative digits c) (readAfterWhole negative digits d) := by
  by_cases hc : c.rest = []
  · rw [readAfterWhole_of_follows digits (.of_nil hc),
      readAfterWhole_of_follows digits (h.of_extends H hc)]
    exact .ok _ (List.suffix_refl _) H
  · rw [readAfterWhole, readAfterWhole, H.next? hc]
    split
    · exact (local_readFraction digits h H hc).map
    · exact (local_readExponent 0 digits h H hc).map
    · exact (local_readExponent 0 digits h H hc).map
    · exact .ok _ (List.suffix_refl _) H

theorem readLong_of_follows (digits : Nat) (h : Follows (skipDigits c).rest) :
    readLong negative digits c = readOptionalExponent negative digits
      (c.rest.takeWhile Char.isDigit).length (skipDigits c) := by
  rw [readLong, ← skipDigits]
  cases hrest : (skipDigits c).rest with
  | nil => rw [Cursor.next?, hrest]; rfl
  | cons x rest =>
    rw [Cursor.next?, hrest]
    obtain rfl | rfl | rfl := h x (hrest ▸ rfl) <;> rfl

theorem local_readLong (digits : Nat) (h : Follows tail) (H : c.Extends tail d) :
    Local c tail (readLong negative digits c) (readLong negative digits d) := by
  have htake := takeWhile_isDigit_extends h H
  have hskip := skipDigits_extends h H
  by_cases hc : (skipDigits c).rest = []
  · rw [readLong_of_follows digits (.of_nil hc), readLong_of_follows digits (h.of_extends hskip hc),
      htake]
    exact (local_readOptionalExponent digits h hskip).of_suffix (suffix_skipDigits c)
  · rw [readLong, readLong, ← skipDigits, ← skipDigits, htake, hskip.next? hc]
    split
    · exact (local_readFraction digits h hskip hc).of_suffix (suffix_skipDigits c)
    · exact (local_readOptionalExponent digits h hskip).of_suffix (suffix_skipDigits c)

theorem readWhole_of_none (h : isDigit? c = none) :
    readWhole negative fuel n c = readAfterWhole negative n c := by
  cases fuel with
  | zero => rfl
  | succ fuel => rw [readWhole, h]

theorem local_readWhole (h : Follows tail) (H : c.Extends tail d) (hfuel : c.rest.length ≤ fuel)
    (hfuel' : c.rest.length ≤ fuel') :
    Local c tail (readWhole negative fuel n c) (readWhole negative fuel' n d) := by
  induction fuel generalizing fuel' n c d with
  | zero =>
    have hnone := isDigit?_of_length hfuel
    rw [readWhole_of_none hnone, readWhole_of_none ((isDigit?_extends h H).trans hnone)]
    exact local_readAfterWhole n h H
  | succ fuel ih =>
    have hlonger := isDigit?_extends h H
    cases hdigit : isDigit? c with
    | none =>
      rw [readWhole_of_none hdigit, readWhole_of_none (hlonger.trans hdigit)]
      exact local_readAfterWhole n h H
    | some digit =>
      have hne := ne_nil_of_isDigit? hdigit
      obtain ⟨_, ⟨⟩, hleft⟩ := exists_fuel hne hfuel
      obtain ⟨fuel', rfl, hleft'⟩ := exists_fuel hne hfuel'
      rw [readWhole, readWhole, hlonger, hdigit]
      dsimp only
      split
      · exact (local_readLong n h H).map
      · exact (ih (H.advance hne) hleft hleft').of_suffix (suffix_advance c)

/-- **Numbers are read alike everywhere.** A number that a text begins with is read as the same
value and to the same end at any other place, before anything that may follow a value. -/
theorem local_readNumber (h : Follows tail) (H : c.Extends tail d) :
    Local c tail (readNumber negative c) (readNumber negative d) := by
  rw [readNumber, readNumber]
  cases hnext : c.next? with
  | none => exact .error
  | some x =>
    have hne := ne_nil_of_next? hnext
    have hadvance := H.advance hne
    rw [H.next? hne, hnext, isDigit?_extends h H]
    split
    · exact .error
    · dsimp only
      rw [isDigit?_extends h hadvance]
      split
      · exact .failureAtNext
      · exact (local_readAfterWhole 0 h hadvance).of_suffix (suffix_advance c)
    · split
      · exact local_readWhole h H (Nat.le_refl _) H.length_le
      · exact .failureAtNext

end Logbook.Json
