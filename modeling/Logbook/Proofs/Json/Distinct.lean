import Logbook.Proofs.Json.Numerals
import Logbook.Proofs.Number.Text

/-! Different values have different texts. The first character of a text tells the kind of the
value, and each text ends where what follows a value begins (`render_append_inj`). -/

namespace Logbook.Json

open Decimal (isNumeric)

mutual

/-- A value whose doubles are finite; other doubles have no text of their own. -/
def Finite : Json → Prop
  | .real x => Decimal.isFinite x = true
  | .array items => FiniteItems items
  | .object members => FiniteMembers members
  | .null | .bool _ | .integer _ | .string _ => True

def FiniteItems : List Json → Prop
  | [] => True
  | item :: items => item.Finite ∧ FiniteItems items

def FiniteMembers : List (String × Json) → Prop
  | [] => True
  | (_, value) :: members => value.Finite ∧ FiniteMembers members

end

theorem finiteItems_of_forall {items : List Json} (h : ∀ item ∈ items, item.Finite) :
    FiniteItems items := by
  induction items with
  | nil =>
    rw [FiniteItems]
    trivial
  | cons item items ih =>
    rw [FiniteItems]
    exact ⟨h item (.head _), ih fun item hitem => h item (.tail _ hitem)⟩

theorem finiteMembers_of_forall {members : List (String × Json)} (h : ∀ m ∈ members, m.2.Finite) :
    FiniteMembers members := by
  induction members with
  | nil =>
    rw [FiniteMembers]
    trivial
  | cons m members ih =>
    rw [FiniteMembers]
    exact ⟨h m (.head _), ih fun m hm => h m (.tail _ hm)⟩

/-! ## Kinds -/

inductive Kind where
  | null
  | yes
  | no
  | number
  | string
  | array
  | object

def kind : Json → Kind
  | .null => .null
  | .bool true => .yes
  | .bool false => .no
  | .integer _ | .real _ => .number
  | .string _ => .string
  | .array _ => .array
  | .object _ => .object

/-- What a value of a kind looks like. -/
def Kind.Form : Kind → Json → Prop
  | .null, v => v = .null
  | .yes, v => v = .bool true
  | .no, v => v = .bool false
  | .number, v => (∃ n, v = .integer n) ∨ ∃ x, v = .real x
  | .string, v => ∃ text, v = .string text
  | .array, v => ∃ items, v = .array items
  | .object, v => ∃ members, v = .object members

theorem form_kind (v : Json) : v.kind.Form v := by
  cases v with
  | null => rfl
  | bool value => cases value <;> rfl
  | integer n => exact .inl ⟨n, rfl⟩
  | real x => exact .inr ⟨x, rfl⟩
  | string text => exact ⟨text, rfl⟩
  | array items => exact ⟨items, rfl⟩
  | object members => exact ⟨members, rfl⟩

theorem number_cases {v : Json} (h : v.kind = .number) :
    (∃ n, v = .integer n) ∨ ∃ x, v = .real x := by
  have hform := form_kind v
  rwa [h] at hform

/-- The kind of the values with this first character. -/
def kindOf? (c : Char) : Option Kind :=
  if isNumeric c then some .number
  else if c = 'n' then some .null
  else if c = 't' then some .yes
  else if c = 'f' then some .no
  else if c = '"' then some .string
  else if c = '[' then some .array
  else if c = '\x7b' then some .object
  else none

variable {s t : List Char} {x y : Float} {n k : Int}

/-! ### Whole numbers -/

theorem toList_toString (n : Int) :
    (toString n).toList = (if n < 0 then ['-'] else []) ++ Nat.toDigits 10 n.natAbs := by
  rw [Int.toString_eq_repr]
  cases n with
  | ofNat k => rw [Int.repr, Nat.toList_repr]; rfl
  | negSucc k =>
    rw [Int.repr, String.toList_append, Nat.toList_repr, if_pos (Int.negSucc_lt_zero k)]
    rfl

theorem isDigit_toDigits {k : Nat} : ∀ c ∈ Nat.toDigits 10 k, c.isDigit = true :=
  fun _ hc => Nat.isDigit_of_mem_toDigits (by decide) (by decide) hc

theorem mem_integer (n : Int) : ∀ c ∈ (toString n).toList, c.isDigit = true ∨ c = '-' := by
  intro c hc
  rw [toList_toString] at hc
  rcases List.mem_append.mp hc with hc | hc
  · split at hc
    · exact .inr (List.mem_singleton.mp hc)
    · cases hc
  · exact .inl (isDigit_toDigits c hc)

theorem integer_ne_nil (n : Int) : (toString n).toList ≠ [] := by
  rw [toList_toString]
  exact List.append_ne_nil_of_right_ne_nil _ Nat.toDigits_ne_nil

theorem integer_inj (h : (toString n).toList = (toString k).toList) : n = k := by
  have unsigned (n : Nat) : ∀ c ∈ (Nat.toDigits 10 n).head?, c ≠ '-' := fun c hc =>
    Decimal.ne_of_isDigit (isDigit_toDigits c (List.mem_of_mem_head? hc)) rfl
  have hsplit : (if decide (n < 0) then ['-'] else []) ++ Nat.toDigits 10 n.natAbs =
      (if decide (k < 0) then ['-'] else []) ++ Nat.toDigits 10 k.natAbs := by
    rw [toList_toString, toList_toString] at h
    simpa only [decide_eq_true_eq] using h
  obtain ⟨hsign, hdigits⟩ := Decimal.sign_inj (unsigned _) (unsigned _) hsplit
  have hsign : n < 0 ↔ k < 0 := decide_eq_decide.mp hsign
  have habs : n.natAbs = k.natAbs := by
    rw [← Nat.ofDigitChars_ten_toDigits (n := n.natAbs), hdigits, Nat.ofDigitChars_ten_toDigits]
  omega

/-! ### Doubles -/

theorem renderReal_of_isFinite (hx : Decimal.isFinite x = true) :
    renderReal x = Decimal.render Decimal.stat x := if_pos hx

theorem exists_mark_renderReal (hx : Decimal.isFinite x = true) :
    ∃ c ∈ renderReal x, c = '.' ∨ c = 'e' := by
  obtain ⟨negative, m, hbits, htext⟩ := Decimal.render_of_isFinite hx Decimal.stat
  obtain ⟨c, hc, hmark⟩ := Decimal.exists_mark Decimal.stat rfl _
    fun digit => Shortest.lt_ten_of_mem_shortest (Shortest.valid_of_ofBits hbits) _
  rw [renderReal_of_isFinite hx, htext]
  exact ⟨c, List.mem_append_right _ hc, hmark⟩

/-- A double is not written as a whole number. -/
theorem integer_ne_real (hx : Decimal.isFinite x = true) : (toString n).toList ≠ renderReal x := by
  intro h
  obtain ⟨c, hc, hmark⟩ := exists_mark_renderReal hx
  rw [← h] at hc
  rcases mem_integer n c hc with hdigit | rfl
  · rcases hmark with rfl | rfl <;> cases hdigit
  · rcases hmark with hmark | hmark <;> cases hmark

/-! ### Numbers -/

/-- The text of a number has characters of numbers only, and at least one. -/
theorem numeric_render {a : Json} (ha : a.Finite) (h : a.kind = .number) :
    a.render ≠ [] ∧ ∀ c ∈ a.render, isNumeric c = true := by
  obtain ⟨n, rfl⟩ | ⟨x, rfl⟩ := number_cases h
  · rw [render]
    refine ⟨integer_ne_nil n, fun c hc => ?_⟩
    rcases mem_integer n c hc with hdigit | rfl
    · exact Decimal.isNumeric_of_isDigit hdigit
    · rfl
  · rw [Finite] at ha
    obtain ⟨c, hc, -⟩ := exists_mark_renderReal ha
    rw [render]
    refine ⟨List.ne_nil_of_mem hc, ?_⟩
    rw [renderReal_of_isFinite ha]
    exact Decimal.isNumeric_render ha _

theorem Follows.isNumeric (h : Follows s) : s.takeWhile isNumeric = [] := by
  cases s with
  | nil => rfl
  | cons c s => obtain rfl | rfl | rfl := h c rfl <;> rfl

/-- A number ends where no number goes on. -/
theorem number_append_inj {a b : List Char} (ha : ∀ c ∈ a, isNumeric c = true)
    (hb : ∀ c ∈ b, isNumeric c = true) (hs : Follows s) (ht : Follows t) (h : a ++ s = b ++ t) :
    a = b ∧ s = t := by
  have hab : a = b := by
    have htake := congrArg (List.takeWhile isNumeric) h
    rwa [List.takeWhile_append_of_pos ha, List.takeWhile_append_of_pos hb, hs.isNumeric,
      ht.isNumeric, List.append_nil, List.append_nil] at htake
  exact ⟨hab, List.append_cancel_left (hab ▸ h)⟩

theorem number_inj {a b : Json} (ha : a.Finite) (hb : b.Finite) (hka : a.kind = .number)
    (hkb : b.kind = .number) (h : a.render = b.render) : a = b := by
  obtain ⟨n, rfl⟩ | ⟨x, rfl⟩ := number_cases hka
  · obtain ⟨k, rfl⟩ | ⟨y, rfl⟩ := number_cases hkb
    · rw [render, render] at h
      rw [integer_inj h]
    · rw [render, render] at h
      rw [Finite] at hb
      exact (integer_ne_real hb h).elim
  · rw [Finite] at ha
    obtain ⟨k, rfl⟩ | ⟨y, rfl⟩ := number_cases hkb
    · rw [render, render] at h
      exact (integer_ne_real ha h.symm).elim
    · rw [Finite] at hb
      rw [render, render, renderReal_of_isFinite ha, renderReal_of_isFinite hb] at h
      rw [Decimal.render_inj ha hb h]

/-- The first character of a text tells the kind. -/
theorem kindOf?_head {a : Json} (ha : a.Finite) :
    ∃ c rest, a.render = c :: rest ∧ kindOf? c = some a.kind := by
  have number (h : a.kind = .number) :
      ∃ c rest, a.render = c :: rest ∧ kindOf? c = some a.kind := by
    obtain ⟨hne, hnumeric⟩ := numeric_render ha h
    obtain ⟨c, rest, hrender⟩ := List.exists_cons_of_ne_nil hne
    refine ⟨c, rest, hrender, ?_⟩
    rw [kindOf?, hnumeric c (hrender ▸ .head _), h]
    rfl
  cases a with
  | null => exact ⟨'n', _, rfl, rfl⟩
  | bool value =>
    cases value with
    | true => exact ⟨'t', _, rfl, rfl⟩
    | false => exact ⟨'f', _, rfl, rfl⟩
  | integer n => exact number rfl
  | real x => exact number rfl
  | string text => exact ⟨'"', _, by rw [render]; rfl, rfl⟩
  | array items => exact ⟨'[', _, by rw [render]; rfl, rfl⟩
  | object members => exact ⟨'\x7b', _, by rw [render]; rfl, rfl⟩

/-! ## Values -/

/-- What stands behind an item of a list, up to the end of the list and beyond it. -/
def afterItem (rest : List Char) : List Json → List Char
  | [] => ']' :: rest
  | items => ',' :: (renderItems items ++ ']' :: rest)

theorem renderItems_cons (item : Json) (items : List Json) (rest : List Char) :
    renderItems (item :: items) ++ ']' :: rest = item.render ++ afterItem rest items := by
  cases items with
  | nil => rw [renderItems, afterItem]
  | cons next items =>
    rw [renderItems, afterItem, List.append_assoc]
    · rfl
    all_goals exact List.cons_ne_nil _ _

theorem follows_afterItem (rest : List Char) (items : List Json) :
    Follows (afterItem rest items) := by
  cases items with
  | nil => exact fun c hc => .inr (.inl (Option.some.inj hc).symm)
  | cons next items => exact fun c hc => .inl (Option.some.inj hc).symm

/-- What stands behind a member of an object, up to the end of the object and beyond it. -/
def afterMember (rest : List Char) : List (String × Json) → List Char
  | [] => '\x7d' :: rest
  | members => ',' :: (renderMembers members ++ '\x7d' :: rest)

theorem renderMembers_cons (key : String) (value : Json) (members : List (String × Json))
    (rest : List Char) : renderMembers ((key, value) :: members) ++ '\x7d' :: rest =
      renderString key ++ ':' :: (value.render ++ afterMember rest members) := by
  cases members with
  | nil =>
    rw [renderMembers, afterMember, List.append_assoc]
    rfl
  | cons next members => simp [renderMembers, afterMember]

theorem follows_afterMember (rest : List Char) (members : List (String × Json)) :
    Follows (afterMember rest members) := by
  cases members with
  | nil => exact fun c hc => .inr (.inr (Option.some.inj hc).symm)
  | cons next members => exact fun c hc => .inl (Option.some.inj hc).symm

/-- Values at the beginning of one text are of one kind. -/
theorem kind_eq_of_append {a b : Json} (ha : a.Finite) (hb : b.Finite)
    (h : a.render ++ s = b.render ++ t) : a.kind = b.kind := by
  obtain ⟨c, rest, hrender, hkind⟩ := kindOf?_head ha
  obtain ⟨c', rest', hrender', hkind'⟩ := kindOf?_head hb
  rw [hrender, hrender'] at h
  obtain ⟨rfl, -⟩ := List.cons.inj h
  exact Option.some.inj (hkind.symm.trans hkind')

theorem form_of_append {a b : Json} (ha : a.Finite) (hb : b.Finite)
    (h : a.render ++ s = b.render ++ t) : a.kind.Form b := by
  rw [kind_eq_of_append ha hb h]
  exact form_kind b

/-- A number at the beginning of a text is determined by the text. -/
theorem numbers_append_inj {a b : Json} (ha : a.Finite) (hb : b.Finite) (hka : a.kind = .number)
    (hs : Follows s) (ht : Follows t) (h : a.render ++ s = b.render ++ t) : a = b ∧ s = t := by
  have hkb : b.kind = .number := (kind_eq_of_append ha hb h).symm.trans hka
  obtain ⟨hrender, hst⟩ :=
    number_append_inj (numeric_render ha hka).2 (numeric_render hb hkb).2 hs ht h
  exact ⟨number_inj ha hb hka hkb hrender, hst⟩

/-- No value begins with a closing bracket. -/
theorem closing_ne_render {a : Json} (ha : a.Finite) {c : Char} (hc : kindOf? c = none) :
    c :: s ≠ a.render ++ t := by
  intro h
  obtain ⟨c', rest, hrender, hkind⟩ := kindOf?_head ha
  rw [hrender] at h
  obtain ⟨rfl, -⟩ := List.cons.inj h
  rw [hc] at hkind
  cases hkind

mutual

/-- **A value at the beginning of a text is determined by the text**, if its doubles are finite and
something follows that may follow a value. -/
theorem render_append_inj : ∀ {a b : Json} {s t : List Char}, a.Finite → b.Finite → Follows s →
    Follows t → a.render ++ s = b.render ++ t → a = b ∧ s = t
  | .null, _, _, _, ha, hb, _, _, h => by
    obtain rfl := form_of_append ha hb h
    exact ⟨rfl, List.append_cancel_left h⟩
  | .bool true, _, _, _, ha, hb, _, _, h => by
    obtain rfl := form_of_append ha hb h
    exact ⟨rfl, List.append_cancel_left h⟩
  | .bool false, _, _, _, ha, hb, _, _, h => by
    obtain rfl := form_of_append ha hb h
    exact ⟨rfl, List.append_cancel_left h⟩
  | .integer _, _, _, _, ha, hb, hs, ht, h => numbers_append_inj ha hb rfl hs ht h
  | .real _, _, _, _, ha, hb, hs, ht, h => numbers_append_inj ha hb rfl hs ht h
  | .string text, _, _, _, ha, hb, _, _, h => by
    obtain ⟨text', rfl⟩ := form_of_append ha hb h
    rw [render, render] at h
    obtain ⟨rfl, hst⟩ := renderString_inj h
    exact ⟨rfl, hst⟩
  | .array items, _, s, t, ha, hb, _, _, h => by
    obtain ⟨items', rfl⟩ := form_of_append ha hb h
    rw [render, render] at h
    rw [Finite] at ha hb
    have h : renderItems items ++ ']' :: s = renderItems items' ++ ']' :: t := by simpa using h
    obtain ⟨rfl, hst⟩ := renderItems_append_inj ha hb h
    exact ⟨rfl, hst⟩
  | .object members, _, s, t, ha, hb, _, _, h => by
    obtain ⟨members', rfl⟩ := form_of_append ha hb h
    rw [render, render] at h
    rw [Finite] at ha hb
    have h : renderMembers members ++ '\x7d' :: s = renderMembers members' ++ '\x7d' :: t := by
      simpa using h
    obtain ⟨rfl, hst⟩ := renderMembers_append_inj ha hb h
    exact ⟨rfl, hst⟩

theorem renderItems_append_inj : ∀ {items items' : List Json} {s t : List Char}, FiniteItems items →
    FiniteItems items' → renderItems items ++ ']' :: s = renderItems items' ++ ']' :: t →
    items = items' ∧ s = t
  | [], [], _, _, _, _, h => ⟨rfl, (List.cons.inj h).2⟩
  | [], item :: items, _, _, _, hb, h => by
    rw [FiniteItems] at hb
    rw [renderItems_cons] at h
    exact (closing_ne_render hb.1 rfl h).elim
  | item :: items, [], _, _, ha, _, h => by
    rw [FiniteItems] at ha
    rw [renderItems_cons] at h
    exact (closing_ne_render ha.1 rfl h.symm).elim
  | item :: items, item' :: items', s, t, ha, hb, h => by
    rw [FiniteItems] at ha hb
    rw [renderItems_cons, renderItems_cons] at h
    obtain ⟨rfl, hafter⟩ :=
      render_append_inj ha.1 hb.1 (follows_afterItem s items) (follows_afterItem t items') h
    cases items with
    | nil =>
      cases items' with
      | nil => exact ⟨rfl, (List.cons.inj hafter).2⟩
      | cons next' items' => cases (List.cons.inj hafter).1
    | cons next items =>
      cases items' with
      | nil => cases (List.cons.inj hafter).1
      | cons next' items' =>
        obtain ⟨hitems, hst⟩ := renderItems_append_inj ha.2 hb.2 (List.cons.inj hafter).2
        exact ⟨by rw [hitems], hst⟩

theorem renderMembers_append_inj : ∀ {members members' : List (String × Json)} {s t : List Char},
    FiniteMembers members → FiniteMembers members' →
    renderMembers members ++ '\x7d' :: s = renderMembers members' ++ '\x7d' :: t →
    members = members' ∧ s = t
  | [], [], _, _, _, _, h => ⟨rfl, (List.cons.inj h).2⟩
  | [], (key, value) :: members, _, _, _, _, h => by
    rw [renderMembers_cons] at h
    cases (List.cons.inj h).1
  | (key, value) :: members, [], _, _, _, _, h => by
    rw [renderMembers_cons] at h
    cases (List.cons.inj h).1
  | (key, value) :: members, (key', value') :: members', s, t, ha, hb, h => by
    rw [FiniteMembers] at ha hb
    rw [renderMembers_cons, renderMembers_cons] at h
    obtain ⟨rfl, hbehind⟩ := renderString_inj h
    obtain ⟨rfl, hafter⟩ := render_append_inj ha.1 hb.1 (follows_afterMember s members)
      (follows_afterMember t members') (List.cons.inj hbehind).2
    cases members with
    | nil =>
      cases members' with
      | nil => exact ⟨rfl, (List.cons.inj hafter).2⟩
      | cons next' members' => cases (List.cons.inj hafter).1
    | cons next members =>
      cases members' with
      | nil => cases (List.cons.inj hafter).1
      | cons next' members' =>
        obtain ⟨hmembers, hst⟩ := renderMembers_append_inj ha.2 hb.2 (List.cons.inj hafter).2
        exact ⟨by rw [hmembers], hst⟩

end

/-- **Different values have different texts.** -/
theorem text_inj {a b : Json} (ha : a.Finite) (hb : b.Finite) (h : a.text = b.text) : a = b := by
  have hrender : a.render = b.render := String.ofList_injective h
  have happend : a.render ++ [] = b.render ++ [] := by rw [hrender]
  exact (render_append_inj ha hb .nil .nil happend).1

end Logbook.Json
