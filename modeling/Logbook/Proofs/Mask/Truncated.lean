import Logbook.Proofs.Mask.Scan

/-!
# Masking a truncated text

What masking makes of the beginning of a text is the beginning of what it makes of the text
(`redact_mono`), wherever the text is cut: inside a name, in the gap behind it or inside a value. So
nothing of a text comes to light because its end is missing.
-/

namespace Logbook.Trace.Mask

variable {name key part text rest gap value : List Char} {c : Char}

theorem redactName_of_unquoted (h : ∀ c ∈ text, c ≠ '"') : redactName name text = text := by
  rw [← List.append_nil text, redactName_append h, redactName_nil]

/-- A text that is too short to hold the name and its quotes stays as it is. -/
theorem redactName_of_length_lt (h : text.length < name.length + 2) :
    redactName name text = text := by
  induction text with
  | nil => exact redactName_nil
  | cons c text ih =>
    have htext : redactName name text = text := ih (by simp at h; omega)
    by_cases hc : c = '"'
    · subst hc
      have hnone : afterName? name text = none := by
        refine Option.eq_none_iff_forall_ne_some.2 fun rest hrest => ?_
        have := length_of_afterName? hrest
        simp at h
        omega
      rw [redactName_quote_of_none hnone, htext]
    · rw [redactName_cons_of_ne hc, htext]

/-! ## Gaps -/

/-- What the search for a gap does with the next character: it passes over it, which is no quote, or
it ends there, with or without a gap. -/
theorem gap?_cons_cases (seen : Bool) (c : Char) :
    (c ≠ '"' ∧ ∃ next, ∀ text, gap? seen (c :: text) =
      (gap? next text).map fun (gap, value) => (c :: gap, value)) ∨
    (c = '"' ∧ ∀ text, gap? seen (c :: text) = some ([c], text)) ∨
    ∀ text, gap? seen (c :: text) = none := by
  by_cases hspace : isSpace c
  · refine .inl ⟨by rintro rfl; exact absurd hspace (by decide), seen, fun text => ?_⟩
    rw [gap?, if_pos hspace]
  by_cases hcolon : c = ':' ∧ !seen
  · refine .inl ⟨by rw [hcolon.1]; decide, true, fun text => ?_⟩
    rw [gap?, if_neg hspace, if_pos hcolon]
  by_cases hquote : c = '"' ∧ seen
  · refine .inr (.inl ⟨hquote.1, fun text => ?_⟩)
    rw [gap?, if_neg hspace, if_neg hcolon, if_pos hquote]
  · refine .inr (.inr fun text => ?_)
    rw [gap?, if_neg hspace, if_neg hcolon, if_neg hquote]

/-- A gap in the beginning of a text is the gap in the text. -/
theorem gap?_append_of_some {seen : Bool} (h : gap? seen part = some (gap, value))
    (rest : List Char) : gap? seen (part ++ rest) = some (gap, value ++ rest) := by
  induction part generalizing seen gap value with
  | nil => cases h
  | cons c part ih =>
    rw [List.cons_append]
    rcases gap?_cons_cases seen c with ⟨-, next, hc⟩ | ⟨-, hc⟩ | hc
    · rw [hc] at h ⊢
      obtain ⟨⟨more, behind⟩, hg, he⟩ := Option.map_eq_some_iff.1 h
      cases he
      rw [ih hg]
      rfl
    · rw [hc] at h ⊢
      cases h
      rfl
    · rw [hc] at h
      cases h

/-- A beginning that ends within the gap of a text has no quote. -/
theorem within_gap {seen : Bool} (hpart : gap? seen part = none)
    (h : gap? seen (part ++ rest) = some (gap, value)) : part <+: gap ∧ ∀ c ∈ part, c ≠ '"' := by
  induction part generalizing seen gap value with
  | nil => exact ⟨List.nil_prefix, by simp⟩
  | cons c part ih =>
    rw [List.cons_append] at h
    rcases gap?_cons_cases seen c with ⟨hne, next, hc⟩ | ⟨-, hc⟩ | hc
    · rw [hc] at h hpart
      obtain ⟨⟨more, behind⟩, hg, he⟩ := Option.map_eq_some_iff.1 h
      cases he
      obtain ⟨hmore, hquote⟩ := ih (Option.map_eq_none_iff.1 hpart) hg
      exact ⟨List.cons_prefix_cons.2 ⟨rfl, hmore⟩, List.forall_mem_cons.2 ⟨hne, hquote⟩⟩
    · rw [hc] at hpart
      cases hpart
    · rw [hc] at h
      cases h

theorem fromClosing_mono (escaped : Bool) (h : part <+: text) :
    fromClosing escaped part <+: fromClosing escaped text := by
  induction part generalizing escaped text with
  | nil => exact List.nil_prefix
  | cons c part ih =>
    obtain ⟨rest, rfl⟩ := h
    have hrest := List.prefix_append part rest
    simp only [List.cons_append, fromClosing]
    split
    · exact ih _ hrest
    · split
      · exact ih _ hrest
      · split
        · exact List.cons_prefix_cons.2 ⟨rfl, hrest⟩
        · exact ih _ hrest

/-! ## One name -/

/-- A beginning without the name, of a text that has the name at this place, ends within the
name. -/
theorem within_name (hpart : afterName? name part = none)
    (htext : part ++ rest = key ++ '"' :: value) (hkey : Ascii.foldText key = name) :
    part <+: key := by
  rcases List.append_eq_append_iff.1 htext with ⟨more, rfl, -⟩ | ⟨more, rfl, hmore⟩
  · exact List.prefix_append part more
  · cases more with
    | nil => exact (List.append_nil key).symm ▸ List.prefix_refl key
    | cons q more =>
      obtain ⟨rfl, -⟩ := List.cons.inj hmore
      rw [afterName?_eq_some_iff.2 ⟨key, rfl, hkey⟩] at hpart
      cases hpart

/-- The scan behind a name, if the scan keeps beginnings from there on. -/
theorem redactBehind_mono (h : part <+: text)
    (ih : ∀ {part' text'}, part'.length ≤ part.length → part' <+: text' →
      redactName name part' <+: redactName name text') :
    redactBehind name part <+: redactBehind name text := by
  obtain ⟨rest, rfl⟩ := h
  have hrest := List.prefix_append part rest
  cases hpart : gap? false part with
  | some found =>
    obtain ⟨gap, value⟩ := found
    rw [redactBehind_of_some hpart, redactBehind_of_some (gap?_append_of_some hpart rest)]
    have hshort : (fromClosing false value).length ≤ part.length := by
      have := length_fromClosing_le false value
      have := congrArg List.length (append_of_gap? hpart)
      rw [List.length_append] at this
      omega
    exact (List.prefix_append_right_inj _).2
      (ih hshort (fromClosing_mono false (List.prefix_append value rest)))
  | none =>
    rw [redactBehind_of_none hpart]
    cases htext : gap? false (part ++ rest) with
    | none =>
      rw [redactBehind_of_none htext]
      exact ih (Nat.le_refl _) hrest
    | some found =>
      obtain ⟨gap, value⟩ := found
      obtain ⟨hgap, hquote⟩ := within_gap hpart htext
      rw [redactBehind_of_some htext, redactName_of_unquoted hquote, List.append_assoc]
      exact hgap.trans (List.prefix_append ..)

/-- The scan for one name goes the same way through a text and through its beginning, up to the end
of the latter. -/
theorem redactName_mono (name : List Char) (h : part <+: text) :
    redactName name part <+: redactName name text := by
  induction hn : part.length using Nat.strongRecOn generalizing part text with
  | _ n ih =>
    subst hn
    have ih {part' text' : List Char} (hlt : part'.length < part.length) (h : part' <+: text') :
        redactName name part' <+: redactName name text' := ih _ hlt h rfl
    cases part with
    | nil =>
      rw [redactName_nil]
      exact List.nil_prefix
    | cons c part =>
      obtain ⟨rest, rfl⟩ := h
      have hrest := List.prefix_append part rest
      rw [List.cons_append]
      by_cases hc : c = '"'
      · subst hc
        cases hpart : afterName? name part with
        | none =>
          rw [redactName_quote_of_none hpart]
          cases htext : afterName? name (part ++ rest) with
          | none =>
            rw [redactName_quote_of_none htext]
            exact List.cons_prefix_cons.2 ⟨rfl, ih (by simp) hrest⟩
          | some behind =>
            -- what is left of the name is too short to hold the name once more
            obtain ⟨key, hkey, hfold⟩ := afterName?_eq_some_iff.1 htext
            have hwithin := within_name hpart hkey hfold
            have hshort : part.length < name.length + 2 := by
              have := hwithin.length_le
              rw [← hfold, Ascii.foldText, List.length_map]
              omega
            rw [redactName_of_length_lt hshort, hkey, redactName_occurrence hfold]
            exact List.cons_prefix_cons.2 ⟨rfl, hwithin.trans (List.prefix_append ..)⟩
        | some behind =>
          obtain ⟨key, rfl, hfold⟩ := afterName?_eq_some_iff.1 hpart
          rw [List.append_assoc, List.cons_append, redactName_occurrence hfold,
            redactName_occurrence hfold]
          refine List.cons_prefix_cons.2 ⟨rfl, (List.prefix_append_right_inj key).2 ?_⟩
          refine List.cons_prefix_cons.2 ⟨rfl, ?_⟩
          refine redactBehind_mono (List.prefix_append behind rest) fun hle h => ih ?_ h
          simp only [List.length_cons, List.length_append]
          omega
      · rw [redactName_cons_of_ne hc, redactName_cons_of_ne hc]
        exact List.cons_prefix_cons.2 ⟨rfl, ih (by simp) hrest⟩

/-! ## A list of names -/

theorem redactField_mono (field : List Char) (h : part <+: text) :
    redactField part field <+: redactField text field := by
  rw [redactField, redactField]
  split
  · exact h
  · exact redactName_mono _ h

/-- **A truncated text reveals nothing.** Whatever the text and the names are, and wherever the text
is cut, masking what is left gives a beginning of what masking the whole gives. -/
theorem redact_mono (fields : List (List Char)) (h : part <+: text) :
    redact part fields <+: redact text fields := by
  induction fields generalizing part text with
  | nil => exact h
  | cons field fields ih => exact ih (redactField_mono field h)

/-- A text that is cut in a value, behind a backslash. -/
theorem redact_mono_cutInValue :
    "\x7b\"pin\":\"a\\".toList <+: "\x7b\"pin\":\"a\\\"b\",\"x\":1\x7d".toList ∧
    "\x7b\"pin\":\"******".toList <+:
      redact "\x7b\"pin\":\"a\\\"b\",\"x\":1\x7d".toList ["Pin".toList] := by
  have hcut : "\x7b\"pin\":\"a\\".toList <+: "\x7b\"pin\":\"a\\\"b\",\"x\":1\x7d".toList := by
    decide
  have hmasked : redact "\x7b\"pin\":\"a\\".toList ["Pin".toList] =
      "\x7b\"pin\":\"******".toList := by
    decide +kernel
  exact ⟨hcut, hmasked ▸ redact_mono ["Pin".toList] hcut⟩

end Logbook.Trace.Mask
