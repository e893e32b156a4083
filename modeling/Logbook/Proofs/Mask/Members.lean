import Logbook.Proofs.Json.Hidden
import Logbook.Proofs.Mask.Quoted

/-!
# Masking the members of a JSON text

What masking makes of a JSON text: strings that are values of members with a masked key are hidden,
and nothing else changes (`redact_text`). The proof goes along the derivation of the text and says
of every value what the scan makes of it in front of any text that may follow a value.
-/

namespace Logbook.Trace.Mask

open Json.Written Ascii

variable {name rest : List Char} {c : Char}

/-! ## What follows a value -/

theorem isSpace_of_mem {b : Blank} (hc : c ∈ b.chars) : isSpace c := by
  have h := b.isSpace c hc
  simp only [Json.Cursor.isSpace, decide_eq_true_eq] at h
  rcases h with rfl | rfl | rfl | rfl <;> rfl

theorem ne_quote_of_mem {b : Blank} (hc : c ∈ b.chars) : c ≠ '"' := by
  rintro rfl
  exact absurd (isSpace_of_mem hc) (by decide)

theorem parted_append {text : List Char} (h : ∀ c ∈ text, c ≠ '"') (hr : Parted rest) :
    Parted (text ++ rest) := by
  induction text with
  | nil => exact hr
  | cons c text ih =>
    exact .inr (.inr ⟨h c List.mem_cons_self, ih fun d hd => h d (List.mem_cons_of_mem _ hd)⟩)

/-- A text that may follow a value: no occurrence of a name reaches into it, and it does not make a
key of the value. -/
structure Ends (rest : List Char) : Prop where
  parted : Parted rest
  noGap : gap? false rest = none

namespace Ends

theorem nil : Ends [] := ⟨trivial, rfl⟩

theorem comma : Ends (',' :: rest) := ⟨.inl rfl, by simp [gap?, isSpace]⟩

theorem blank (b : Blank) (h : Ends rest) : Ends (b.chars ++ rest) where
  parted := parted_append (fun _ => ne_quote_of_mem) h.parted
  noGap := by rw [gap?_append fun _ => isSpace_of_mem, h.noGap]; rfl

theorem close (hc : c = ']' ∨ c = '\x7d') (h : Parted rest) : Ends (c :: rest) := by
  rcases hc with rfl | rfl
  · exact ⟨.inr (.inr ⟨by decide, h⟩), by simp [gap?, isSpace]⟩
  · exact ⟨.inr (.inr ⟨by decide, h⟩), by simp [gap?, isSpace]⟩

end Ends

/-! ## Numbers and words -/

theorem ne_quote_of_isDigit (h : c.isDigit) : c ≠ '"' := by
  rintro rfl
  exact absurd h (by decide)

theorem ne_quote_of_mem_digits {d : DigitRun} (hc : c ∈ d.text) : c ≠ '"' :=
  ne_quote_of_isDigit (d.isDigit c hc)

theorem ne_quote_of_mem_exponent {e : Exponent} (hc : c ∈ e.text) : c ≠ '"' := by
  rw [Exponent.text, List.mem_cons, List.mem_append] at hc
  rcases hc with rfl | hc | hc
  · rcases e.isLetter with h | h <;> rw [h] <;> decide
  · rcases e.isSign c (by simpa using hc) with rfl | rfl <;> decide
  · exact ne_quote_of_mem_digits hc

theorem ne_quote_of_mem_numeral {n : Numeral} (hc : c ∈ n.text) : c ≠ '"' := by
  simp only [Numeral.text, List.mem_append] at hc
  rcases hc with ((hc | hc) | hc) | hc
  · split at hc
    · rw [List.mem_singleton.1 hc]; decide
    · cases hc
  · exact ne_quote_of_mem_digits hc
  · cases hf : n.fraction with
    | none => simp [hf] at hc
    | some d =>
      simp only [hf, Option.elim_some, List.mem_cons] at hc
      rcases hc with rfl | hc
      · decide
      · exact ne_quote_of_mem_digits hc
  · cases he : n.exponent with
    | none => simp [he] at hc
    | some e => exact ne_quote_of_mem_exponent (by simpa [he] using hc)

/-! ## Keys and values -/

theorem gap?_of_not_space {seen : Bool} (hspace : ¬isSpace c) (hcolon : c ≠ ':')
    (hquote : c ≠ '"') : gap? seen (c :: rest) = none := by
  simp [gap?, hspace, hcolon, hquote]

theorem gap?_of_isDigit {seen : Bool} (h : c.isDigit) : gap? seen (c :: rest) = none := by
  refine gap?_of_not_space (fun hs => ?_) (by rintro rfl; revert h; decide) (ne_quote_of_isDigit h)
  simp only [isSpace, decide_eq_true_eq] at hs
  rcases hs with rfl | rfl | rfl | rfl <;> revert h <;> decide

/-- Only a string opens with a quote. -/
theorem gap?_value {v : Value} (hv : ∀ s, v ≠ .string s) (seen : Bool) :
    gap? seen (v.text ++ rest) = none := by
  have hfirst {x : Char} {text : List Char}
      (hx : x ∈ ['n', 't', 'f', '[', '\x7b', '-']) : gap? seen (x :: text) = none := by
    simp only [List.mem_cons, List.not_mem_nil, or_false] at hx
    rcases hx with rfl | rfl | rfl | rfl | rfl | rfl <;>
      exact gap?_of_not_space (by decide) (by decide) (by decide)
  cases v with
  | null => exact hfirst (by decide)
  | bool b => cases b <;> exact hfirst (by decide)
  | number n =>
    rw [Value.text, Numeral.text]
    cases n.negative with
    | true => exact hfirst (by decide)
    | false => exact gap?_of_isDigit (n.whole.isDigit _ List.mem_cons_self)
  | string s => exact absurd rfl (hv s)
  | emptyArray | array => exact hfirst (by decide)
  | emptyObject | object => exact hfirst (by decide)

theorem gap?_colon (b₁ b₂ : Blank) :
    gap? false (b₁.chars ++ ':' :: (b₂.chars ++ rest)) =
      (gap? true rest).map fun (gap, value) => (b₁.chars ++ ':' :: (b₂.chars ++ gap), value) := by
  have hcolon : gap? false (':' :: (b₂.chars ++ rest)) =
      (gap? true (b₂.chars ++ rest)).map fun (gap, value) => (':' :: gap, value) := by
    simp [gap?, isSpace]
  rw [gap?_append fun _ => isSpace_of_mem, hcolon, gap?_append fun _ => isSpace_of_mem,
    Option.map_map, Option.map_map]
  rfl

/-- The keys that are occurrences of one name. -/
def hits (name : List Char) (key : Quoted) : Bool := IsNamed name key

variable {key : Quoted}

theorem raw_stars : Quoted.raw stars = mask.toList := by decide

/-- A string that no colon follows is passed over. -/
theorem redactName_string (hn : Plain name) (hr : Ends rest) (s : Quoted) :
    redactName (foldText name) (s.text ++ rest) = s.text ++ redactName (foldText name) rest := by
  rw [redactName_text hn hr.parted, redactAfter, redactBehind_of_none hr.noGap, ite_self]

theorem redactName_blank (b : Blank) :
    redactName name (b.chars ++ rest) = b.chars ++ redactName name rest :=
  redactName_append fun _ => ne_quote_of_mem

theorem redactName_colon (b₁ b₂ : Blank) :
    redactName name (b₁.chars ++ ':' :: (b₂.chars ++ rest)) =
      b₁.chars ++ ':' :: (b₂.chars ++ redactName name rest) := by
  rw [redactName_blank, redactName_cons_of_ne (by decide), redactName_blank]

/-- Behind a key, a string is passed over and hidden as the key says. -/
theorem redactAfter_colon_string (hn : Plain name) (hr : Ends rest) (b₁ b₂ : Blank) (s : Quoted)
    (named : Bool) :
    redactAfter (foldText name) (b₁.chars ++ ':' :: (b₂.chars ++ (s.text ++ rest))) named =
      b₁.chars ++ ':' :: (b₂.chars ++
        (((Value.string s).hide named).text ++ redactName (foldText name) rest)) := by
  cases named with
  | false =>
    rw [redactAfter, if_neg (by decide), redactName_colon, redactName_string hn hr]
    rfl
  | true =>
    have hgap : gap? true (s.text ++ rest) = some (['"'], s.raw ++ '"' :: rest) := by
      simp [Quoted.text, gap?, isSpace]
    have hclosing : redactName (foldText name) ('"' :: rest) =
        '"' :: redactName (foldText name) rest :=
      redactName_quote_of_none (afterName?_of_parted (plain_foldText.2 hn) hr.parted)
    rw [redactAfter, if_pos rfl, redactBehind_of_some (by rw [gap?_colon, hgap]; rfl),
      fromClosing_raw, hclosing, ← raw_stars]
    simp [Value.hide, Value.text, Quoted.text]

/-- Behind a key, any other value is passed over as it is elsewhere. -/
theorem redactAfter_colon_other {v : Value} (hv : ∀ s, v ≠ .string s) (b₁ b₂ : Blank)
    (named : Bool) :
    redactAfter name (b₁.chars ++ ':' :: (b₂.chars ++ (v.text ++ rest))) named =
      b₁.chars ++ ':' :: (b₂.chars ++ redactName name (v.text ++ rest)) := by
  have hgap : gap? false (b₁.chars ++ ':' :: (b₂.chars ++ (v.text ++ rest))) = none := by
    rw [gap?_colon, gap?_value hv, Option.map_none]
  rw [redactAfter, redactBehind_of_none hgap, ite_self, redactName_colon]

/-- What the scan makes of a member, if it makes of the value what it makes of it elsewhere. -/
theorem redactName_member (hn : Plain name) (hr : Ends rest) (b₁ b₂ : Blank) {v : Value}
    (hv : redactName (foldText name) (v.text ++ rest) =
      (v.mask (hits name)).text ++ redactName (foldText name) rest) :
    redactName (foldText name) (key.text ++ (b₁.chars ++ ':' :: (b₂.chars ++ (v.text ++ rest)))) =
      key.text ++ (b₁.chars ++ ':' :: (b₂.chars ++
        (((v.mask (hits name)).hide (hits name key)).text ++
          redactName (foldText name) rest))) := by
  have hparted : Parted (b₁.chars ++ ':' :: (b₂.chars ++ (v.text ++ rest))) :=
    parted_append (fun _ => ne_quote_of_mem) (.inr (.inl rfl))
  rw [redactName_text hn hparted]
  by_cases hs : ∃ s, v = .string s
  · obtain ⟨s, rfl⟩ := hs
    rw [Value.text, redactAfter_colon_string hn hr]
    rfl
  · have hv' : ∀ s, v ≠ .string s := fun s h => hs ⟨s, h⟩
    rw [redactAfter_colon_other hv', hv, Value.hide_mask hv']

/-! ## Documents -/

mutual

theorem redactName_value {rest : List Char} (hn : Plain name) (hr : Ends rest) (v : Value) :
    redactName (foldText name) (v.text ++ rest) =
      (v.mask (hits name)).text ++ redactName (foldText name) rest := by
  have hpass {c : Char} {text : List Char} (hc : c ∈ ['[', ']', '\x7b', '\x7d']) :
      redactName (foldText name) (c :: text) = c :: redactName (foldText name) text :=
    redactName_cons_of_ne (by rintro rfl; revert hc; decide)
  cases v with
  | null =>
    have hword : ∀ c ∈ Value.null.text, c ≠ '"' := by simp [Value.text]
    exact redactName_append hword
  | bool b =>
    have hword : ∀ c ∈ (Value.bool b).text, c ≠ '"' := by cases b <;> simp [Value.text]
    exact redactName_append hword
  | number n => exact redactName_append fun _ => ne_quote_of_mem_numeral
  | string s => exact redactName_string hn hr s
  | emptyArray gap | emptyObject gap =>
    simp [Value.text, Value.mask, hpass, redactName_blank]
  | array items =>
    have hclose := Ends.close (.inl rfl) hr.parted
    simp [Value.text, Value.mask, hpass, redactName_items hn hclose items]
  | object members =>
    have hclose := Ends.close (.inr rfl) hr.parted
    simp [Value.text, Value.mask, hpass, redactName_members hn hclose members]

theorem redactName_items {rest : List Char} (hn : Plain name) (hr : Ends rest) (items : Items) :
    redactName (foldText name) (items.text ++ rest) =
      (items.mask (hits name)).text ++ redactName (foldText name) rest := by
  cases items with
  | last before value after =>
    simp only [Items.text, Items.mask, List.append_assoc, redactName_blank,
      redactName_value hn (.blank after hr) value]
  | cons before value after more =>
    have hcomma : Ends (after.chars ++ ',' :: (more.text ++ rest)) := .blank after .comma
    simp only [Items.text, Items.mask, List.append_assoc, List.cons_append, redactName_blank,
      redactName_value hn hcomma value,
      redactName_cons_of_ne (show (',' : Char) ≠ '"' by decide),
      redactName_items hn hr more]

theorem redactName_members {rest : List Char} (hn : Plain name) (hr : Ends rest)
    (members : Members) :
    redactName (foldText name) (members.text ++ rest) =
      (members.mask (hits name)).text ++ redactName (foldText name) rest := by
  cases members with
  | last before key b₁ b₂ value after =>
    have hafter := Ends.blank after hr
    simp only [Members.text, Members.mask, List.append_assoc, List.cons_append, redactName_blank,
      redactName_member hn hafter b₁ b₂ (redactName_value hn hafter value)]
  | cons before key b₁ b₂ value after more =>
    have hcomma : Ends (after.chars ++ ',' :: (more.text ++ rest)) := .blank after .comma
    simp only [Members.text, Members.mask, List.append_assoc, List.cons_append, redactName_blank,
      redactName_member hn hcomma b₁ b₂ (redactName_value hn hcomma value),
      redactName_cons_of_ne (show (',' : Char) ≠ '"' by decide),
      redactName_members hn hr more]

end

/-- One name hides the members whose keys are occurrences of it. -/
theorem redactName_document (hn : Plain name) (d : Document) :
    redactName (foldText name) d.text = (d.mask (hits name)).text := by
  have hafter : Ends (d.after.chars ++ []) := .blank d.after .nil
  have htail : redactName (foldText name) (d.after.chars ++ []) = d.after.chars ++ [] := by
    rw [redactName_blank, redactName_nil]
  rw [List.append_nil] at hafter htail
  rw [Document.text, redactName_blank, redactName_value hn hafter, htail]
  rfl

/-- The keys that are masked for a list of names; the empty name stands for no key. -/
def masks (names : List (List Char)) (key : Quoted) : Bool :=
  ∃ name ∈ names, name ≠ [] ∧ IsNamed name key

variable {names : List (List Char)}

theorem masks_cons_nil : masks ([] :: names) = masks names := by
  funext key
  simp [masks]

theorem masks_cons (h : name ≠ []) :
    masks (name :: names) = fun key => hits name key || masks names key := by
  funext key
  simp [masks, hits, h]

theorem masks_congr {others : List (List Char)} (h : ∀ name, name ∈ others ↔ name ∈ names) :
    masks others = masks names := by
  funext key
  simp [masks, h]

/-- A list of names hides the members whose keys are occurrences of one of them. -/
theorem redact_text (hnames : ∀ name ∈ names, Plain name) (d : Document) :
    redact d.text names = (d.mask (masks names)).text := by
  induction names generalizing d with
  | nil =>
    have hnone : masks [] = fun _ => false := by funext key; simp [masks]
    rw [hnone, Document.mask_none]
    rfl
  | cons name names ih =>
    have hrest : ∀ name ∈ names, Plain name := fun n hn => hnames n (List.mem_cons_of_mem _ hn)
    show redact (redactField d.text name) names = _
    by_cases hname : name = []
    · subst hname
      rw [masks_cons_nil, ← ih hrest]
      rfl
    · have hfield : redactField d.text name = (d.mask (hits name)).text := by
        rw [redactField, if_neg (by simpa using hname),
          redactName_document (hnames name List.mem_cons_self)]
      rw [hfield, ih hrest, Document.mask_mask, masks_cons hname]

/-- Masking the members of a well-formed body hides exactly the strings under the masked keys. The
result is a document of the same shape, the names count as a set, and masking it again changes
nothing. -/
theorem redact_document (hnames : ∀ name ∈ names, Plain name) (d : Document) :
    redact d.text names = (d.mask (masks names)).text ∧
    (d.mask (masks names)).shape = d.shape ∧
    (∀ others, (∀ name, name ∈ others ↔ name ∈ names) →
      redact d.text others = redact d.text names) ∧
    redact (redact d.text names) names = redact d.text names := by
  refine ⟨redact_text hnames d, ?_, fun others hsame => ?_, ?_⟩
  · simp [Document.shape, Document.mask_mask]
  · have hothers : ∀ name ∈ others, Plain name := fun name h => hnames name ((hsame name).1 h)
    rw [redact_text hothers, redact_text hnames, masks_congr hsame]
  · rw [redact_text hnames, redact_text hnames, Document.mask_mask]
    simp

/-- An object with one member; its key ends in an escaped quote and a name. -/
def escapedPin : Document where
  before := ⟨[], by simp⟩
  value := .object <| .last ⟨[], by simp⟩
    [.plain 'a' (by decide), .escaped '"' (by decide), .plain 'P' (by decide),
      .plain 'i' (by decide), .plain 'n' (by decide)]
    ⟨[' '], by simp [Json.Cursor.isSpace]⟩ ⟨[], by simp⟩ (.string [.plain '1' (by decide)])
    ⟨[], by simp⟩
  after := ⟨[], by simp⟩

theorem redact_escapedPin :
    (∀ name ∈ [['p', 'i', 'n']], Plain name) ∧
    escapedPin.text = "\x7b\"a\\\"Pin\" :\"1\"\x7d".toList ∧
    redact escapedPin.text [['p', 'i', 'n']] = "\x7b\"a\\\"Pin\" :\"******\"\x7d".toList := by
  have hplain : ∀ name ∈ [['p', 'i', 'n']], Plain name := by simp [Plain]
  refine ⟨hplain, by decide, ?_⟩
  rw [(redact_document hplain escapedPin).1]
  decide

/-- The body of a record is masked for the registered names, in whatever order they come. -/
theorem Registry.redact_text (r : Registry) (hnames : ∀ name ∈ r.names, Plain name.toList)
    (d : Document) :
    r.redact (String.ofList d.text) =
      String.ofList (d.mask (masks (r.names.map String.toList))).text := by
  have hplain : ∀ name ∈ r.names.map String.toList, Plain name := List.forall_mem_map.2 hnames
  rw [Registry.redact, String.toList_ofList, Mask.redact_text hplain]

end Logbook.Trace.Mask
