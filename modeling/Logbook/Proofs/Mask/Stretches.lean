import Logbook.Proofs.Mask.Segments

/-!
# What a scan replaces

The scan for a field finds the name from left to right, and behind each name it looks for a value
(`reads_redactField`), on any text. So the text is divided into stretches, each of which is kept up
to an opening quote and has a value behind it, and a rest that is kept: the scan masks the values of
such a division, which do not overlap, and changes nothing else (`masks_redactField`).
-/

namespace Logbook.Trace.Mask

open Ascii

variable {field : List Char}

/-- What stands between a key and the characters of its value: a colon among blanks and the opening
quote. -/
def Opening (gap : List Char) : Prop :=
  ∃ left right, (∀ c ∈ left ++ right, isSpace c) ∧ gap = left ++ ':' :: (right ++ ['"'])

/-- The value runs to the text behind it: its quotes are escaped in it, and behind it stands a quote
that is not, or nothing. The first of its characters may be escaped. -/
structure RunsTo (escaped : Bool) (value behind : List Char) : Prop where
  escapes_of_quote : ∀ inner more, value = inner ++ '"' :: more → escapes escaped inner = true
  closes : behind = [] ∨ escapes escaped value = false ∧ ∃ more, behind = '"' :: more

/-- The text begins with the name, in any case of its letters, and a quote. -/
def Named (field text : List Char) : Prop :=
  ∃ key behind, List.Forall₂ SameLetter key field ∧ text = key ++ '"' :: behind

/-- No quote of a text that goes on with `behind` opens the name. -/
def Nameless (field text behind : List Char) : Prop :=
  ∀ front more, text = front ++ '"' :: more → ¬ Named field (more ++ behind)

/-- How a scan for the name reads a text, and what comes of it. It stops at every name that begins
behind the last name or value. The empty name is not looked for. -/
inductive Reads (field : List Char) : List Char → List Char → Prop
  | rest {text} (nameless : field = [] ∨ Nameless field text []) : Reads field text text
  | name {front key text output} (nameless : Nameless field front ('"' :: (key ++ '"' :: text)))
      (same : List.Forall₂ SameLetter key field)
      (noValue : ∀ gap more, text = gap ++ more → ¬ Opening gap) (later : Reads field text output) :
      Reads field (front ++ '"' :: (key ++ '"' :: text)) (front ++ '"' :: (key ++ '"' :: output))
  | value {front key gap value text output}
      (nameless : Nameless field front ('"' :: (key ++ '"' :: (gap ++ (value ++ text)))))
      (same : List.Forall₂ SameLetter key field) (opening : Opening gap)
      (runsTo : RunsTo false value text) (later : Reads field text output) :
      Reads field (front ++ '"' :: (key ++ '"' :: (gap ++ (value ++ text))))
        (front ++ '"' :: (key ++ '"' :: (gap ++ (mask.toList ++ output))))

/-- A stretch of a text: what is kept of it, and the value behind that. -/
structure Stretch where
  kept : List Char
  value : List Char

/-- The text of some stretches in front of a rest. -/
def spellOut (stretches : List Stretch) (rest : List Char) : List Char :=
  (stretches.flatMap fun s => s.kept ++ s.value) ++ rest

/-- The text ends with the opening quote of a value of the field. In front of that stands the name
between two quotes. -/
def Opens (field text : List Char) : Prop :=
  ∃ front key gap, List.Forall₂ SameLetter key field ∧ Opening gap ∧
    text = front ++ '"' :: (key ++ '"' :: gap)

/-- A text as stretches, each with a value of the field, in front of a rest. -/
structure Division (field : List Char) where
  stretches : List Stretch
  rest : List Char
  opens : ∀ s ∈ stretches, Opens field s.kept
  runsTo : ∀ before s after, stretches = before ++ s :: after →
    RunsTo false s.value (spellOut after rest)

namespace Division

def text (d : Division field) : List Char := spellOut d.stretches d.rest

/-- The text with its values masked. -/
def masked (d : Division field) : List Char :=
  (d.stretches.flatMap fun s => s.kept ++ mask.toList) ++ d.rest

end Division

/-! ## Values, gaps and names -/

variable {text output behind value gap kept rest key : List Char} {escaped : Bool} {c : Char}

theorem RunsTo.cons (h : RunsTo (!escaped && c = '\\') value behind)
    (hc : c = '"' → escaped = true) : RunsTo escaped (c :: value) behind where
  escapes_of_quote inner more heq := by
    cases inner with
    | nil => exact hc (List.cons.inj heq).1
    | cons d inner =>
      obtain ⟨rfl, htail⟩ := List.cons.inj heq
      exact h.escapes_of_quote inner more htail
  closes := h.closes

/-- The search for a closing quote goes over the value that ends there. -/
theorem exists_value (escaped : Bool) (text : List Char) : ∃ value,
    text = value ++ fromClosing escaped text ∧ RunsTo escaped value (fromClosing escaped text) := by
  induction text generalizing escaped with
  | nil => exact ⟨[], rfl, fun _ _ h => by simp at h, .inl rfl⟩
  | cons c text ih =>
    rw [fromClosing]
    split
    · next hescaped =>
      subst hescaped
      obtain ⟨value, htext, h⟩ := ih false
      exact ⟨c :: value, congrArg (c :: ·) htext, RunsTo.cons h fun _ => rfl⟩
    · next hescaped =>
      rw [Bool.not_eq_true] at hescaped
      subst hescaped
      split
      · next hslash =>
        obtain ⟨value, htext, h⟩ := ih true
        refine ⟨c :: value, congrArg (c :: ·) htext, RunsTo.cons ?_ ?_⟩
        · simpa [hslash] using h
        · rintro rfl
          cases hslash
      · next hslash =>
        split
        · next hquote =>
          subst hquote
          exact ⟨[], rfl, fun _ _ h => by simp at h, .inr ⟨rfl, text, rfl⟩⟩
        · next hquote =>
          obtain ⟨value, htext, h⟩ := ih false
          refine ⟨c :: value, congrArg (c :: ·) htext, RunsTo.cons ?_ fun h => absurd h hquote⟩
          simpa [hslash] using h

theorem blanks_of_gap? (h : gap? true text = some (gap, value)) :
    ∃ right, (∀ c ∈ right, isSpace c) ∧ gap = right ++ ['"'] := by
  induction text generalizing gap value with
  | nil => cases h
  | cons c text ih =>
    rw [gap?] at h
    split at h
    · next hc =>
      obtain ⟨⟨gap, value⟩, hgap, he⟩ := Option.map_eq_some_iff.1 h
      obtain ⟨right, hright, rfl⟩ := ih hgap
      cases he
      exact ⟨c :: right, List.forall_mem_cons.2 ⟨hc, hright⟩, rfl⟩
    · simp only [Bool.not_true, Bool.false_eq_true, and_false, if_false, and_true] at h
      split at h
      · next hc =>
        cases h
        exact ⟨[], List.forall_mem_nil _, by rw [hc]; rfl⟩
      · cases h

theorem opening_of_gap? (h : gap? false text = some (gap, value)) : Opening gap := by
  induction text generalizing gap value with
  | nil => cases h
  | cons c text ih =>
    rw [gap?] at h
    split at h
    · next hc =>
      obtain ⟨⟨gap, value⟩, hgap, he⟩ := Option.map_eq_some_iff.1 h
      obtain ⟨left, right, hblank, rfl⟩ := ih hgap
      cases he
      exact ⟨c :: left, right, List.forall_mem_cons.2 ⟨hc, hblank⟩, rfl⟩
    · split at h
      · next hc =>
        obtain ⟨⟨gap, value⟩, hgap, he⟩ := Option.map_eq_some_iff.1 h
        obtain ⟨right, hright, rfl⟩ := blanks_of_gap? hgap
        cases he
        exact ⟨[], right, hright, by rw [hc.1]; rfl⟩
      · split at h
        · next hc => cases hc.2
        · cases h

theorem gap?_eq_some_iff :
    gap? false text = some (gap, value) ↔ Opening gap ∧ text = gap ++ value := by
  constructor
  · exact fun h => ⟨opening_of_gap? h, (append_of_gap? h).symm⟩
  · rintro ⟨⟨left, right, hblank, rfl⟩, rfl⟩
    obtain ⟨hleft, hright⟩ := List.forall_mem_append.1 hblank
    have hcolon : gap? false (':' :: (right ++ '"' :: value)) =
        some (':' :: (right ++ ['"']), value) := by
      simp [gap?, isSpace, gap?_append hright]
    rw [List.append_assoc, List.cons_append, List.append_assoc, List.singleton_append,
      gap?_append hleft, hcolon]
    rfl

theorem not_opening_of_gap? (h : gap? false text = none) :
    ∀ gap more, text = gap ++ more → ¬ Opening gap := by
  intro gap more htext hopening
  cases h.symm.trans (gap?_eq_some_iff.2 ⟨hopening, htext⟩)

theorem named_iff :
    Named field text ↔ ∃ behind, afterName? (foldText field) text = some behind := by
  simp only [Named, afterName?_eq_some_iff, foldText_eq_iff]
  constructor
  · rintro ⟨key, behind, hsame, htext⟩
    exact ⟨behind, key, htext, hsame⟩
  · rintro ⟨behind, key, htext, hsame⟩
    exact ⟨key, behind, hsame, htext⟩

theorem nameless_nil (field behind : List Char) : Nameless field [] behind := by
  intro front more h
  simp at h

theorem Nameless.cons (h : Nameless field text behind)
    (hc : c = '"' → ¬ Named field (text ++ behind)) : Nameless field (c :: text) behind := by
  intro front more heq
  cases front with
  | nil =>
    obtain ⟨rfl, rfl⟩ := List.cons.inj heq
    exact hc rfl
  | cons d front => exact h front more (List.cons.inj heq).2

/-! ## Readings -/

/-- A character that opens no name. -/
theorem Reads.cons (h : Reads field text output) (hc : c = '"' → ¬ Named field text) :
    Reads field (c :: text) (c :: output) := by
  cases h with
  | rest nameless =>
    refine .rest (nameless.imp_right fun h => h.cons fun hquote => ?_)
    rw [List.append_nil]
    exact hc hquote
  | @name front key _ _ nameless same noValue later =>
    exact @Reads.name field (c :: front) key _ _ (nameless.cons hc) same noValue later
  | @value front key gap value _ _ nameless same opening runsTo later =>
    exact @Reads.value field (c :: front) key gap value _ _ (nameless.cons hc) same opening runsTo
      later

/-- The scan behind a name, if it reads every shorter text. -/
theorem reads_redactBehind (hkey : foldText key = foldText field)
    (ih : ∀ text, text.length ≤ rest.length → Reads field text (redactName (foldText field) text)) :
    Reads field ('"' :: (key ++ '"' :: rest))
      ('"' :: (key ++ '"' :: redactBehind (foldText field) rest)) := by
  have hsame := (foldText_eq_iff key field).1 hkey
  cases hgap : gap? false rest with
  | none =>
    rw [redactBehind_of_none hgap]
    exact .name (nameless_nil field _) hsame (not_opening_of_gap? hgap) (ih rest (Nat.le_refl _))
  | some found =>
    obtain ⟨gap, behind⟩ := found
    obtain ⟨value, hvalue, hruns⟩ := exists_value false behind
    obtain ⟨hopening, rfl⟩ := gap?_eq_some_iff.1 hgap
    have hshort : (fromClosing false behind).length ≤ (gap ++ behind).length :=
      Nat.le_trans (length_fromClosing_le false behind) (by simp)
    have h := Reads.value (nameless_nil field _) hsame hopening hruns (ih _ hshort)
    rw [redactBehind_of_some hgap, List.append_assoc]
    rwa [← hvalue] at h

theorem reads_redactName (field text : List Char) :
    Reads field text (redactName (foldText field) text) := by
  induction hn : text.length using Nat.strongRecOn generalizing text with
  | _ n ih =>
    subst hn
    have ih {text' : List Char} (h : text'.length < text.length) :
        Reads field text' (redactName (foldText field) text') := ih _ h text' rfl
    cases text with
    | nil =>
      rw [redactName_nil]
      exact .rest (.inr (nameless_nil field _))
    | cons c text =>
      have htext : Reads field text (redactName (foldText field) text) := ih (Nat.lt_succ_self _)
      by_cases hc : c = '"'
      · subst hc
        cases hname : afterName? (foldText field) text with
        | none =>
          rw [redactName_quote_of_none hname]
          refine htext.cons fun _ hnamed => ?_
          obtain ⟨behind, hbehind⟩ := named_iff.1 hnamed
          cases hname.symm.trans hbehind
        | some rest =>
          obtain ⟨key, rfl, hkey⟩ := afterName?_eq_some_iff.1 hname
          rw [redactName_occurrence hkey]
          refine reads_redactBehind hkey fun text' h => ih ?_
          simp only [List.length_cons, List.length_append]
          omega
      · rw [redactName_cons_of_ne hc]
        exact htext.cons fun hquote => absurd hquote hc

/-- How any text is read for a field. -/
theorem reads_redactField (field text : List Char) : Reads field text (redactField text field) := by
  rw [redactField]
  split
  · next hfield => exact .rest (.inl (List.isEmpty_iff.1 hfield))
  · exact reads_redactName field text

/-! ## Divisions -/

/-- The output is the text with the values of a division masked. -/
def Masks (field text output : List Char) : Prop :=
  ∃ d : Division field, d.text = text ∧ d.masked = output

/-- A text without values. -/
theorem Masks.refl (field text : List Char) : Masks field text text :=
  ⟨⟨[], text, List.forall_mem_nil _, fun _ _ _ h => by simp at h⟩, rfl, rfl⟩

/-- A value in front of a text that is masked. -/
theorem Masks.hide (h : Masks field text output) (hkept : Opens field kept)
    (hvalue : RunsTo false value text) :
    Masks field (kept ++ (value ++ text)) (kept ++ (mask.toList ++ output)) := by
  obtain ⟨d, rfl, rfl⟩ := h
  refine ⟨⟨⟨kept, value⟩ :: d.stretches, d.rest, List.forall_mem_cons.2 ⟨hkept, d.opens⟩, ?_⟩,
    ?_, ?_⟩
  · intro before s after h
    cases before with
    | nil =>
      obtain ⟨rfl, rfl⟩ := List.cons.inj h
      exact hvalue
    | cons _ before => exact d.runsTo before s after (List.cons.inj h).2
  · simp only [Division.text, spellOut, List.flatMap_cons, List.append_assoc]
  · simp only [Division.masked, List.flatMap_cons, List.append_assoc]

theorem Opens.append (h : Opens field text) (front : List Char) : Opens field (front ++ text) := by
  obtain ⟨before, key, gap, hsame, hopening, rfl⟩ := h
  exact ⟨front ++ before, key, gap, hsame, hopening, (List.append_assoc ..).symm⟩

/-- Text that is kept joins the first stretch. -/
theorem Masks.append (h : Masks field text output) (front : List Char) :
    Masks field (front ++ text) (front ++ output) := by
  obtain ⟨⟨stretches, rest, hopens, hruns⟩, rfl, rfl⟩ := h
  cases stretches with
  | nil => exact .refl field (front ++ rest)
  | cons s stretches =>
    obtain ⟨hs, hopens⟩ := List.forall_mem_cons.1 hopens
    let d : Division field := ⟨stretches, rest, hopens,
      fun before t after h => hruns (s :: before) t after (h ▸ rfl)⟩
    have hd : Masks field d.text d.masked := ⟨d, rfl, rfl⟩
    have h := hd.hide (hs.append front) (hruns [] s stretches rfl)
    simpa only [Division.text, Division.masked, spellOut, List.flatMap_cons, List.append_assoc,
      d] using h

/-- The values of a reading are those of a division. -/
theorem Reads.masks (h : Reads field text output) : Masks field text output := by
  induction h with
  | @rest text _ => exact .refl field text
  | @name front key _ _ _ _ _ _ ih =>
    have h := ih.append (front ++ '"' :: (key ++ ['"']))
    simpa only [List.append_assoc, List.cons_append, List.nil_append] using h
  | @value front key gap _ _ _ _ same opening runsTo _ ih =>
    have h := ih.hide ⟨front, key, gap, same, opening, rfl⟩ runsTo
    simpa only [List.append_assoc, List.cons_append, List.nil_append] using h

theorem masks_redactField (field text : List Char) : Masks field text (redactField text field) :=
  (reads_redactField field text).masks

end Logbook.Trace.Mask
