import Mathlib.Data.List.TakeWhile
import Mathlib.Tactic.Ring
import Logbook.Proofs.Number.Rounding

/-! The text of a double tells the double. Whatever the layout, the text denotes the shortest
decimal of the double (`numeral_text`), to which no other double rounds. -/

namespace Logbook.Decimal

/-- The power of ten behind the digits of a decimal text. -/
def power : List Char → ℤ
  | 'e' :: '-' :: digits => -Nat.ofDigitChars 10 digits 0
  | 'e' :: _ :: digits => Nat.ofDigitChars 10 digits 0
  | _ => 0

def whole (text : List Char) : List Char := (text.takeWhile (· ≠ 'e')).takeWhile (· ≠ '.')

def fraction (text : List Char) : List Char := ((text.takeWhile (· ≠ 'e')).dropWhile (· ≠ '.')).tail

/-- The number that an unsigned decimal text denotes. -/
def numeral (text : List Char) : ℚ :=
  Nat.ofDigitChars 10 (whole text ++ fraction text) 0 *
    10 ^ (power (text.dropWhile (· ≠ 'e')) - (fraction text).length)

/-- What may stand behind the digits: nothing, or an exponent. -/
def Ends (tail : List Char) : Prop := ∀ c ∈ tail.head?, c = 'e'

variable {before after tail : List Char} {ds : List ℕ} {exponent : ℤ}

theorem Ends.nil : Ends [] := nofun

theorem Ends.takeWhile (h : Ends tail) : tail.takeWhile (· ≠ 'e') = [] := by
  cases tail with
  | nil => rfl
  | cons c tail => obtain rfl := h c rfl; rfl

theorem Ends.dropWhile (h : Ends tail) : tail.dropWhile (· ≠ 'e') = tail := by
  cases tail with
  | nil => rfl
  | cons c tail => obtain rfl := h c rfl; rfl

theorem ne_of_isDigit {c d : Char} (h : c.isDigit = true) (hd : d.isDigit = false) : c ≠ d := by
  rintro rfl
  rw [h] at hd
  cases hd

theorem numeral_append (hbefore : ∀ c ∈ before, c.isDigit = true) (h : Ends tail) :
    numeral (before ++ tail) = Nat.ofDigitChars 10 before 0 * 10 ^ power tail := by
  have he : ∀ c ∈ before, decide (c ≠ 'e') = true := fun c hc =>
    decide_eq_true (ne_of_isDigit (hbefore c hc) rfl)
  have hpoint : ∀ c ∈ before, decide (c ≠ '.') = true := fun c hc =>
    decide_eq_true (ne_of_isDigit (hbefore c hc) rfl)
  have hmantissa : (before ++ tail).takeWhile (· ≠ 'e') = before := by
    rw [List.takeWhile_append_of_pos he, h.takeWhile, List.append_nil]
  have hwhole : whole (before ++ tail) = before := by
    rw [whole, hmantissa]
    exact List.takeWhile_eq_self_iff.mpr hpoint
  have hfraction : fraction (before ++ tail) = [] := by
    rw [fraction, hmantissa, List.dropWhile_eq_nil_iff.mpr hpoint]
    rfl
  rw [numeral, hwhole, hfraction, List.dropWhile_append_of_pos he, h.dropWhile, List.append_nil]
  simp

theorem numeral_point (hbefore : ∀ c ∈ before, c.isDigit = true)
    (hafter : ∀ c ∈ after, c.isDigit = true) (h : Ends tail) :
    numeral (before ++ '.' :: after ++ tail) =
      Nat.ofDigitChars 10 (before ++ after) 0 * 10 ^ (power tail - after.length) := by
  have hpoint : ∀ c ∈ before, decide (c ≠ '.') = true := fun c hc =>
    decide_eq_true (ne_of_isDigit (hbefore c hc) rfl)
  have he : ∀ c ∈ before ++ '.' :: after, decide (c ≠ 'e') = true := by
    intro c hc
    refine decide_eq_true ?_
    rcases List.mem_append.mp hc with hc | hc
    · exact ne_of_isDigit (hbefore c hc) rfl
    · rcases List.mem_cons.mp hc with rfl | hc
      · decide
      · exact ne_of_isDigit (hafter c hc) rfl
  have hmantissa :
      (before ++ '.' :: after ++ tail).takeWhile (· ≠ 'e') = before ++ '.' :: after := by
    rw [List.takeWhile_append_of_pos he, h.takeWhile, List.append_nil]
  have hwhole : whole (before ++ '.' :: after ++ tail) = before := by
    rw [whole, hmantissa, List.takeWhile_append_of_pos hpoint]
    exact List.append_nil _
  have hfraction : fraction (before ++ '.' :: after ++ tail) = after := by
    rw [fraction, hmantissa, List.dropWhile_append_of_pos hpoint]
    rfl
  rw [numeral, hwhole, hfraction, List.dropWhile_append_of_pos he, h.dropWhile]

/-! ## Layouts -/

theorem ofDigitChars_digitChars (h : ∀ d ∈ ds, d < 10) :
    Nat.ofDigitChars 10 (digitChars ds) 0 = Digits.ofDigits 10 ds := by
  rw [Digits.ofDigitChars_eq, digitChars_toNat h]

theorem isDigit_replicate {n : ℕ} : ∀ c ∈ List.replicate n '0', c.isDigit = true := by
  intro c hc
  rw [List.eq_of_mem_replicate hc]
  rfl

theorem isDigit_append (hbefore : ∀ c ∈ before, c.isDigit = true)
    (hafter : ∀ c ∈ after, c.isDigit = true) : ∀ c ∈ before ++ after, c.isDigit = true :=
  fun c hc => (List.mem_append.mp hc).elim (hbefore c) (hafter c)

theorem length_digitChars (ds : List ℕ) : (digitChars ds).length = ds.length := List.length_map _

/-- Digits with zeros behind them. -/
theorem ofDigitChars_zeros (h : ∀ d ∈ ds, d < 10) (n : ℕ) :
    Nat.ofDigitChars 10 (digitChars ds ++ List.replicate n '0') 0 =
      10 ^ n * Digits.ofDigits 10 ds := by
  rw [Nat.ofDigitChars_append, Nat.ofDigitChars_replicate_zero, ofDigitChars_digitChars h]

theorem numeral_positionalText (pointZero : Bool) (h : ∀ d ∈ ds, d < 10) (exponent : ℤ) :
    numeral (positionalText pointZero ds exponent) =
      Digits.ofDigits 10 ds * 10 ^ (exponent + 1 - ds.length) := by
  have hdigits := isDigit_of_mem_digitChars h
  rw [positionalText]
  split
  · next hneg =>
    have hzeros := isDigit_append (isDigit_replicate (n := (-exponent).toNat - 1)) hdigits
    have hzero : ∀ c ∈ ['0'], c.isDigit = true := List.all_eq_true.mp rfl
    have hvalue := numeral_point hzero hzeros .nil
    rw [List.append_nil, Nat.ofDigitChars_append, Nat.ofDigitChars_append,
      Nat.ofDigitChars_replicate_zero, List.length_append, List.length_replicate,
      length_digitChars] at hvalue
    refine hvalue.trans ?_
    rw [show Nat.ofDigitChars 10 ['0'] 0 = 0 from rfl, Nat.mul_zero, ofDigitChars_digitChars h]
    congr 2
    rw [show power [] = 0 from rfl]
    omega
  · next hpos =>
    dsimp only
    split
    · next hnil =>
      have hlength : ds.length ≤ exponent.toNat + 1 := List.drop_eq_nil_iff.mp hnil
      rw [List.take_of_length_le hlength]
      have hwhole :=
        isDigit_append hdigits (isDigit_replicate (n := exponent.toNat + 1 - ds.length))
      have hexponent : exponent + 1 - ds.length = (exponent.toNat + 1 - ds.length : ℕ) := by omega
      rw [hexponent, zpow_natCast]
      cases pointZero with
      | true =>
        have hzero : ∀ c ∈ ['0'], c.isDigit = true := List.all_eq_true.mp rfl
        have hvalue := numeral_point hwhole hzero .nil
        rw [List.append_nil, Nat.ofDigitChars_append, ofDigitChars_zeros h] at hvalue
        refine hvalue.trans ?_
        rw [Nat.ofDigitChars_cons, Nat.ofDigitChars_nil, show power [] = 0 from rfl]
        norm_num
        ring
      | false =>
        have hvalue := numeral_append hwhole .nil
        rw [List.append_nil, ofDigitChars_zeros h, show power [] = 0 from rfl, zpow_zero] at hvalue
        refine hvalue.trans ?_
        push_cast
        ring
    · next hne =>
      have hlength : exponent.toNat + 1 < ds.length := by
        by_contra hle
        exact hne (List.drop_eq_nil_iff.mpr (not_lt.mp hle))
      obtain ⟨before, hbefore⟩ : ∃ n, n = exponent.toNat + 1 := ⟨_, rfl⟩
      rw [← hbefore] at hlength ⊢
      have htake : ∀ c ∈ digitChars (ds.take before), c.isDigit = true :=
        isDigit_of_mem_digitChars fun d hd => h d (List.mem_of_mem_take hd)
      have hdrop : ∀ c ∈ digitChars (ds.drop before), c.isDigit = true :=
        isDigit_of_mem_digitChars fun d hd => h d (List.mem_of_mem_drop hd)
      have happend :
          digitChars (ds.take before) ++ digitChars (ds.drop before) = digitChars ds := by
        rw [digitChars, digitChars, ← List.map_append, List.take_append_drop, digitChars]
      have hvalue := numeral_point htake hdrop .nil
      rw [List.append_nil, happend, ofDigitChars_digitChars h, length_digitChars,
        List.length_drop] at hvalue
      rw [Nat.sub_eq_zero_of_le hlength.le, List.replicate_zero, List.append_nil]
      refine hvalue.trans ?_
      congr 2
      rw [show power [] = 0 from rfl]
      omega

/-- The text of an exponent. -/
def powerText (exponent : ℤ) : List Char :=
  (if exponent < 0 then ['e', '-'] else ['e', '+']) ++ Nat.toDigits 10 exponent.natAbs

theorem power_powerText (exponent : ℤ) : power (powerText exponent) = exponent := by
  rw [powerText]
  split
  · change -((Nat.ofDigitChars 10 (Nat.toDigits 10 exponent.natAbs) 0 : ℕ) : ℤ) = exponent
    rw [Nat.ofDigitChars_ten_toDigits]
    omega
  · change ((Nat.ofDigitChars 10 (Nat.toDigits 10 exponent.natAbs) 0 : ℕ) : ℤ) = exponent
    rw [Nat.ofDigitChars_ten_toDigits]
    omega

theorem ends_powerText (exponent : ℤ) : Ends (powerText exponent) := by
  rw [powerText]
  split <;> exact fun c hc => (Option.some.inj hc).symm

theorem numeral_scientificText (h : ∀ d ∈ ds, d < 10) (exponent : ℤ) :
    numeral (scientificText ds exponent) =
      Digits.ofDigits 10 ds * 10 ^ (exponent + 1 - ds.length) := by
  have hends := ends_powerText exponent
  have hdigits := isDigit_of_mem_digitChars h
  match ds with
  | [] =>
    have hvalue := numeral_append hdigits hends
    rw [show digitChars [] = [] from rfl, Nat.ofDigitChars_nil, Nat.cast_zero, zero_mul] at hvalue
    exact hvalue.trans (zero_mul _).symm
  | [d] =>
    have hvalue := numeral_append hdigits hends
    rw [ofDigitChars_digitChars h, power_powerText] at hvalue
    refine hvalue.trans ?_
    simp
  | d :: e :: rest =>
    have hfirst : ∀ c ∈ digitChars [d], c.isDigit = true :=
      fun c hc => hdigits c (List.mem_append_left _ hc)
    have hothers : ∀ c ∈ digitChars (e :: rest), c.isDigit = true :=
      fun c hc => hdigits c (.tail _ hc)
    have hvalue := numeral_point hfirst hothers hends
    have happend : digitChars [d] ++ digitChars (e :: rest) = digitChars (d :: e :: rest) := rfl
    rw [power_powerText, length_digitChars, happend, ofDigitChars_digitChars h] at hvalue
    refine hvalue.trans ?_
    congr 2
    rw [List.length_cons (a := d)]
    push_cast
    ring

/-- **The text of a decimal denotes it**, in any layout. -/
theorem numeral_text (layout : Layout) (d : Shortest.Decimal) (h : ∀ digit ∈ d.digits, digit < 10) :
    numeral (layout.text d) = d.value := by
  rw [Layout.text]
  split
  · exact numeral_positionalText layout.pointZero h d.exponent
  · exact numeral_scientificText h d.exponent

/-! ## Characters -/

/-- The characters of numbers. -/
def isNumeric (c : Char) : Bool := c.isDigit || c = '.' || c = 'e' || c = '+' || c = '-'

theorem isNumeric_of_isDigit {c : Char} (h : c.isDigit = true) : isNumeric c = true := by
  rw [isNumeric, h]
  rfl

theorem mem_positionalText {pointZero : Bool} (h : ∀ d ∈ ds, d < 10) :
    ∀ c ∈ positionalText pointZero ds exponent, c.isDigit = true ∨ c = '.' := by
  have zeros {n : ℕ} {c : Char} (hc : c ∈ List.replicate n '0') : c.isDigit = true ∨ c = '.' :=
    .inl (isDigit_replicate c hc)
  have digits {es : List ℕ} {c : Char} (hes : ∀ d ∈ es, d ∈ ds) (hc : c ∈ digitChars es) :
      c.isDigit = true ∨ c = '.' :=
    .inl (isDigit_of_mem_digitChars (fun d hd => h d (hes d hd)) c hc)
  have hwhole {c : Char} (hc : c ∈ digitChars (ds.take (exponent.toNat + 1)) ++
      List.replicate (exponent.toNat + 1 - ds.length) '0') : c.isDigit = true ∨ c = '.' :=
    (List.mem_append.mp hc).elim (digits fun d hd => List.mem_of_mem_take hd) zeros
  intro c hc
  rw [positionalText] at hc
  split at hc
  · rw [List.append_assoc] at hc
    rcases List.mem_append.mp hc with hc | hc
    · rcases List.mem_cons.mp hc with rfl | hc
      · exact .inl rfl
      · exact .inr (List.mem_singleton.mp hc)
    · exact (List.mem_append.mp hc).elim zeros (digits fun d hd => hd)
  · dsimp only at hc
    split at hc
    · split at hc
      · rcases List.mem_append.mp hc with hc | hc
        · exact hwhole hc
        · rcases List.mem_cons.mp hc with rfl | hc
          · exact .inr rfl
          · obtain rfl := List.mem_singleton.mp hc
            exact .inl rfl
      · exact hwhole hc
    · rcases List.mem_append.mp hc with hc | hc
      · exact hwhole hc
      · rcases List.mem_cons.mp hc with rfl | hc
        · exact .inr rfl
        · exact digits (fun d hd => List.mem_of_mem_drop hd) hc

/-- Scientific text has an exponent, behind digits and at most a point. -/
theorem scientificText_eq (h : ∀ d ∈ ds, d < 10) (exponent : ℤ) : ∃ before,
    scientificText ds exponent = before ++ powerText exponent ∧
      ∀ c ∈ before, c.isDigit = true ∨ c = '.' := by
  have hdigits := isDigit_of_mem_digitChars h
  match ds with
  | [] => exact ⟨[], rfl, nofun⟩
  | [d] => exact ⟨digitChars [d], rfl, fun c hc => .inl (hdigits c hc)⟩
  | d :: e :: rest =>
    refine ⟨Char.ofNat ('0'.toNat + d) :: '.' :: digitChars (e :: rest), rfl, fun c hc => ?_⟩
    rcases List.mem_cons.mp hc with rfl | hc
    · exact .inl (hdigits _ (.head _))
    · rcases List.mem_cons.mp hc with rfl | hc
      · exact .inr rfl
      · exact .inl (hdigits c (.tail _ hc))

theorem isNumeric_powerText (exponent : ℤ) : ∀ c ∈ powerText exponent, isNumeric c = true := by
  intro c hc
  rcases List.mem_append.mp hc with hc | hc
  · split at hc
    · exact List.all_eq_true.mp (rfl : ['e', '-'].all isNumeric = true) c hc
    · exact List.all_eq_true.mp (rfl : ['e', '+'].all isNumeric = true) c hc
  · exact isNumeric_of_isDigit (Nat.isDigit_of_mem_toDigits (by decide) (by decide) hc)

theorem isNumeric_text {layout : Layout} {d : Shortest.Decimal}
    (h : ∀ digit ∈ d.digits, digit < 10) :
    ∀ c ∈ layout.text d, isNumeric c = true := by
  have plain {c : Char} (hc : c.isDigit = true ∨ c = '.') : isNumeric c = true := by
    rcases hc with hc | rfl
    · exact isNumeric_of_isDigit hc
    · rfl
  intro c hc
  rw [Layout.text] at hc
  split at hc
  · exact plain (mem_positionalText h c hc)
  · obtain ⟨before, htext, hbefore⟩ := scientificText_eq h d.exponent
    rw [htext] at hc
    exact (List.mem_append.mp hc).elim (fun hc => plain (hbefore c hc)) (isNumeric_powerText _ c)

/-- A layout with `.0` writes a point or an exponent into every text. -/
theorem exists_mark (layout : Layout) (hpoint : layout.pointZero = true) (d : Shortest.Decimal)
    (h : ∀ digit ∈ d.digits, digit < 10) : ∃ c ∈ layout.text d, c = '.' ∨ c = 'e' := by
  rw [Layout.text]
  split
  · refine ⟨'.', ?_, .inl rfl⟩
    rw [positionalText, hpoint]
    split
    · simp
    · dsimp only
      split <;> simp
  · obtain ⟨before, htext, -⟩ := scientificText_eq h d.exponent
    refine ⟨'e', ?_, .inr rfl⟩
    rw [htext, powerText]
    split <;> simp

/-- An unsigned text does not begin with a sign. -/
theorem head_text {layout : Layout} {d : Shortest.Decimal} (h : ∀ digit ∈ d.digits, digit < 10) :
    ∀ c ∈ (layout.text d).head?, c ≠ '-' := by
  have plain {c : Char} (hc : c.isDigit = true ∨ c = '.') : c ≠ '-' := by
    rcases hc with hc | rfl
    · exact ne_of_isDigit hc rfl
    · decide
  intro c hc
  rw [Layout.text] at hc
  split at hc
  · exact plain (mem_positionalText h c (List.mem_of_mem_head? hc))
  · obtain ⟨before, htext, hbefore⟩ := scientificText_eq h d.exponent
    rw [htext] at hc
    cases before with
    | nil =>
      obtain rfl := ends_powerText _ c hc
      decide
    | cons first before =>
      obtain rfl := Option.some.inj hc
      exact plain (hbefore first (.head _))

/-! ## Doubles -/

theorem toBits_inj {x y : Float} (h : x.toBits = y.toBits) : x = y := by
  obtain ⟨⟨bits, _⟩⟩ := x
  obtain ⟨⟨bits', _⟩⟩ := y
  cases h
  rfl

/-- The text of a finite double is a sign and the text of the shortest decimal. -/
theorem render_of_isFinite {x : Float} (hx : isFinite x = true) (layout : Layout) :
    ∃ negative m, Shortest.ofBits x.toBits.toNat = .finite negative m ∧ render layout x =
      (if negative then ['-'] else []) ++ layout.text (Shortest.shortest layout.tie m) := by
  rw [isFinite] at hx
  rw [render]
  split at hx
  · next negative m hbits =>
    rw [hbits]
    exact ⟨negative, m, rfl, rfl⟩
  · cases hx

theorem isNumeric_render {x : Float} (hx : isFinite x = true) (layout : Layout) :
    ∀ c ∈ render layout x, isNumeric c = true := by
  obtain ⟨negative, m, hbits, htext⟩ := render_of_isFinite hx layout
  intro c hc
  rw [htext] at hc
  rcases List.mem_append.mp hc with hc | hc
  · split at hc
    · obtain rfl := List.mem_singleton.mp hc
      rfl
    · cases hc
  · exact isNumeric_text (fun digit =>
      Shortest.lt_ten_of_mem_shortest (Shortest.valid_of_ofBits hbits) layout.tie) c hc

/-- A sign in front of texts that do not begin with one. -/
theorem sign_inj {negative negative' : Bool} {text text' : List Char}
    (h : ∀ c ∈ text.head?, c ≠ '-') (h' : ∀ c ∈ text'.head?, c ≠ '-')
    (heq : (if negative then ['-'] else []) ++ text = (if negative' then ['-'] else []) ++ text') :
    negative = negative' ∧ text = text' := by
  have first {s t : List Char} (ht : ∀ c ∈ t.head?, c ≠ '-') (heq : '-' :: s = t) : False :=
    ht '-' (heq ▸ rfl) rfl
  cases negative <;> cases negative'
  · exact ⟨rfl, heq⟩
  · exact (first h heq.symm).elim
  · exact (first h' heq).elim
  · exact ⟨rfl, (List.cons.inj heq).2⟩

/-- **The text of a double tells the double.** Two finite doubles with the same text are the same,
even if they were written in two layouts. -/
theorem render_inj {layout layout' : Layout} {x y : Float} (hx : isFinite x = true)
    (hy : isFinite y = true) (h : render layout x = render layout' y) : x = y := by
  obtain ⟨negative, m, hbits, htext⟩ := render_of_isFinite hx layout
  obtain ⟨negative', m', hbits', htext'⟩ := render_of_isFinite hy layout'
  have hm := Shortest.valid_of_ofBits hbits
  have hm' := Shortest.valid_of_ofBits hbits'
  have hdigits : ∀ digit ∈ (Shortest.shortest layout.tie m).digits, digit < 10 :=
    fun digit => Shortest.lt_ten_of_mem_shortest hm layout.tie
  have hdigits' : ∀ digit ∈ (Shortest.shortest layout'.tie m').digits, digit < 10 :=
    fun digit => Shortest.lt_ten_of_mem_shortest hm' layout'.tie
  rw [htext, htext'] at h
  obtain ⟨rfl, htexts⟩ := sign_inj (head_text hdigits) (head_text hdigits') h
  have hvalue :
      (Shortest.shortest layout.tie m).value = (Shortest.shortest layout'.tie m').value := by
    rw [← numeral_text layout _ hdigits, htexts, numeral_text layout' _ hdigits']
  have hrounds := Shortest.rounds_shortest hm layout.tie
  rw [hvalue] at hrounds
  obtain rfl := hrounds.inj (Shortest.rounds_shortest hm' layout'.tie) hm hm'
  have hnat : x.toBits.toNat = y.toBits.toNat :=
    Shortest.ofBits_inj x.toBits.toNat_lt y.toBits.toNat_lt hbits hbits'
  exact toBits_inj (UInt64.toNat_inj.mp hnat)

end Logbook.Decimal
