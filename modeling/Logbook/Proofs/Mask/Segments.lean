import Mathlib.Data.List.Basic
import Logbook.Proofs.Mask.Truncated

/-!
# A text cut at its quotes

For names without quotes the scan can be told segment by segment (`redactName_spell`). A segment
that folds to the name, between two quotes, is an occurrence; the next one is the gap, if it is one
colon among blanks and a quote follows; and a value goes on over a quote as long as its segments end
in a backslash that escapes it.
-/

namespace Logbook.Trace.Mask

open Ascii

variable {name : List Char} {x y : List Char} {rest segs : List (List Char)} {c : Char}

/-- A text without quotes. -/
def Unquoted (text : List Char) : Prop := ∀ c ∈ text, c ≠ '"'

/-- The text of segments, each behind a quote. -/
def spell : List (List Char) → List Char
  | [] => []
  | x :: segs => '"' :: (x ++ spell segs)

theorem spell_append (segs rest : List (List Char)) :
    spell (segs ++ rest) = spell segs ++ spell rest := by
  induction segs with
  | nil => rfl
  | cons x segs ih => simp [spell, ih]

/-- Every text is cut at its quotes. -/
theorem exists_segments (text : List Char) :
    ∃ head segs, text = head ++ spell segs ∧ Unquoted head ∧ ∀ x ∈ segs, Unquoted x := by
  induction text with
  | nil => exact ⟨[], [], rfl, nofun, nofun⟩
  | cons c text ih =>
    obtain ⟨head, segs, rfl, hhead, hsegs⟩ := ih
    by_cases hc : c = '"'
    · subst hc
      exact ⟨[], head :: segs, rfl, nofun, List.forall_mem_cons.2 ⟨hhead, hsegs⟩⟩
    · exact ⟨c :: head, segs, rfl, List.forall_mem_cons.2 ⟨hc, hhead⟩, hsegs⟩

theorem unquoted_mask : Unquoted mask.toList := by
  intro c hc
  rw [List.eq_of_mem_replicate (show c ∈ List.replicate 6 '*' from hc)]
  decide

theorem unquoted_foldText : Unquoted (foldText name) ↔ Unquoted name := by
  have h (c : Char) : fold c ≠ '"' ↔ c ≠ '"' := not_congr (fold_eq_iff (by decide))
  simp only [Unquoted, foldText, List.forall_mem_map, h]

/-- Up to the first quote two texts are the same if they are the same. -/
theorem eq_of_append_quote (hx : Unquoted x) (hy : Unquoted y) {a b : List Char}
    (h : x ++ '"' :: a = y ++ '"' :: b) : x = y ∧ a = b := by
  induction x generalizing y with
  | nil =>
    cases y with
    | nil => exact ⟨rfl, (List.cons.inj h).2⟩
    | cons d y => exact absurd (List.cons.inj h).1.symm (hy d (.head _))
  | cons c x ih =>
    cases y with
    | nil => exact absurd (List.cons.inj h).1 (hx c (.head _))
    | cons d y =>
      obtain ⟨rfl, htail⟩ := List.cons.inj h
      obtain ⟨rfl, rfl⟩ := ih (List.forall_mem_cons.1 hx).2 (List.forall_mem_cons.1 hy).2 htail
      exact ⟨rfl, rfl⟩

/-! ## Names -/

/-- A segment is an occurrence of a name if a quote follows. -/
theorem afterName?_spell (hx : Unquoted x) (hname : Unquoted name) :
    afterName? name (x ++ spell (y :: rest)) =
      if foldText x = name then some (y ++ spell rest) else none := by
  split
  · next h => exact afterName?_eq_some_iff.2 ⟨x, rfl, h⟩
  · next h =>
    refine Option.eq_none_iff_forall_ne_some.2 fun behind hbehind => h ?_
    obtain ⟨key, hkey, rfl⟩ := afterName?_eq_some_iff.1 hbehind
    rw [(eq_of_append_quote hx (unquoted_foldText.1 hname) hkey).1]

theorem afterName?_unquoted (hx : Unquoted x) : afterName? name x = none := by
  refine Option.eq_none_iff_forall_ne_some.2 fun behind hbehind => ?_
  obtain ⟨key, rfl, -⟩ := afterName?_eq_some_iff.1 hbehind
  exact hx '"' (by simp) rfl

/-! ## Gaps -/

/-- One colon among blanks; `seen` behind the colon. -/
def isGap (seen : Bool) : List Char → Bool
  | [] => seen
  | c :: text => if isSpace c then isGap seen text else c = ':' && !seen && isGap true text

theorem isGap_foldText (seen : Bool) (text : List Char) :
    isGap seen (foldText text) = isGap seen text := by
  have hspace (c : Char) : isSpace (fold c) = isSpace c := by
    simp only [isSpace, fold_eq_iff (x := ' ') (by decide), fold_eq_iff (x := '\t') (by decide),
      fold_eq_iff (x := '\r') (by decide), fold_eq_iff (x := '\n') (by decide)]
  have hcolon (c : Char) : fold c = ':' ↔ c = ':' := fold_eq_iff (by decide)
  induction text generalizing seen with
  | nil => rfl
  | cons c text ih =>
    have ih (seen : Bool) : isGap seen (List.map fold text) = isGap seen text := ih seen
    simp only [foldText, List.map_cons, isGap, hspace, hcolon, ih]

theorem gap?_spell {seen : Bool} (hy : Unquoted y) :
    gap? seen (y ++ '"' :: x) = if isGap seen y then some (y ++ ['"'], x) else none := by
  induction y generalizing seen with
  | nil => cases seen <;> simp [gap?, isGap, isSpace]
  | cons c y ih =>
    obtain ⟨hc, htail⟩ := List.forall_mem_cons.1 hy
    rw [List.cons_append, gap?, isGap]
    by_cases hspace : isSpace c
    · rw [if_pos hspace, if_pos hspace, ih htail]
      cases isGap seen y <;> rfl
    · rw [if_neg hspace, if_neg hspace]
      by_cases hcolon : c = ':' ∧ !seen
      · rw [if_pos hcolon, ih htail, decide_eq_true hcolon.1, hcolon.2]
        cases isGap true y <;> rfl
      · have hno : (decide (c = ':') && !seen) = false := by simpa using hcolon
        rw [if_neg hcolon, if_neg (fun h => hc h.1), hno]
        rfl

theorem gap?_unquoted {seen : Bool} (hy : Unquoted y) : gap? seen y = none := by
  induction y generalizing seen with
  | nil => rfl
  | cons c y ih =>
    obtain ⟨hc, hy⟩ := List.forall_mem_cons.1 hy
    rcases gap?_cons_cases seen c with ⟨-, next, h⟩ | ⟨h, -⟩ | h
    · rw [h, ih hy]
      rfl
    · exact absurd h hc
    · exact h y

/-! ## Values -/

/-- Whether a quote behind a text is escaped. -/
def escapes (escaped : Bool) : List Char → Bool
  | [] => escaped
  | c :: text => escapes (!escaped && c = '\\') text

/-- The segments behind a value that begins with the first one. -/
def afterValue : List (List Char) → List (List Char)
  | [] => []
  | x :: segs => if escapes false x then afterValue segs else segs

theorem length_afterValue_le (segs : List (List Char)) :
    (afterValue segs).length ≤ segs.length := by
  induction segs with
  | nil => exact Nat.le_refl _
  | cons x segs ih =>
    rw [afterValue]
    split
    · exact Nat.le_succ_of_le ih
    · exact Nat.le_succ _

theorem afterValue_suffix (segs : List (List Char)) : afterValue segs <:+ segs := by
  induction segs with
  | nil => exact List.suffix_refl _
  | cons x segs ih =>
    rw [afterValue]
    split
    · exact ih.trans (List.suffix_cons ..)
    · exact List.suffix_cons ..

theorem fromClosing_append {escaped : Bool} (hx : Unquoted x) (text : List Char) :
    fromClosing escaped (x ++ text) = fromClosing (escapes escaped x) text := by
  induction x generalizing escaped with
  | nil => rfl
  | cons c x ih =>
    obtain ⟨hc, hx⟩ := List.forall_mem_cons.1 hx
    rw [List.cons_append, fromClosing, escapes]
    cases escaped with
    | true => exact ih hx
    | false =>
      by_cases hslash : c = '\\'
      · simp [hslash, ih hx]
      · simp [hslash, hc, ih hx]

theorem fromClosing_spell (hsegs : ∀ x ∈ segs, Unquoted x) (hx : Unquoted x) :
    fromClosing false (x ++ spell segs) = spell (afterValue (x :: segs)) := by
  induction segs generalizing x with
  | nil =>
    rw [fromClosing_append hx]
    cases escapes false x <;> simp [spell, fromClosing, afterValue]
  | cons y segs ih =>
    obtain ⟨hy, hsegs⟩ := List.forall_mem_cons.1 hsegs
    rw [fromClosing_append hx, afterValue, spell, fromClosing]
    cases escapes false x with
    | true => exact ih hsegs hy
    | false => simp [spell]

/-! ## The scan -/

/-- The name as an occurrence of which the next segment is passed over, behind a segment that is one
itself: the next one begins with its closing quote. -/
def nextSkip (names : List (List Char)) (skip : Option (List Char)) (x : List Char) :
    Option (List Char) :=
  if foldText x ∈ names ∧ skip ≠ some (foldText x) then some (foldText x) else none

/-- The values behind some names masked, segment by segment. All names are looked for at once. -/
def maskSegments (names : List (List Char)) :
    Option (List Char) → List (List Char) → List (List Char)
  | skip, x :: y :: segs =>
    if nextSkip names skip x ≠ none ∧ isGap false y ∧ segs ≠ [] then
      x :: y :: mask.toList :: maskSegments names none (afterValue segs)
    else x :: maskSegments names (nextSkip names skip x) (y :: segs)
  | _, segs => segs
termination_by _ segs => segs.length
decreasing_by
  · have := length_afterValue_le segs
    simp
    omega
  · simp

variable {names : List (List Char)} {skip : Option (List Char)}

theorem nextSkip_of_not_mem (hx : foldText x ∉ names) : nextSkip names skip x = none :=
  if_neg fun h => hx h.1

theorem nextSkip_of_ne (hx : foldText x ≠ name) : nextSkip [name] skip x = none :=
  nextSkip_of_not_mem fun h => hx (List.mem_singleton.1 h)

theorem foldText_of_nextSkip (h : nextSkip [name] skip x ≠ none) : foldText x = name :=
  not_not.1 (mt nextSkip_of_ne h)

theorem nextSkip_eq_some_iff :
    nextSkip names skip x = some name ↔ foldText x = name ∧ name ∈ names ∧ skip ≠ some name := by
  rw [nextSkip]
  split
  · next h =>
    rw [Option.some.injEq]
    exact ⟨fun heq => heq ▸ ⟨rfl, h⟩, And.left⟩
  · next h => exact ⟨nofun, fun ⟨heq, hname⟩ => absurd (heq ▸ hname) h⟩

theorem nextSkip_self : nextSkip names (some (foldText x)) x = none := if_neg fun h => h.2 rfl

@[simp] theorem maskSegments_nil : maskSegments names skip [] = [] := by rw [maskSegments]; simp

@[simp] theorem maskSegments_singleton : maskSegments names skip [x] = [x] := by
  rw [maskSegments]; simp

theorem maskSegments_hit (hx : nextSkip names skip x ≠ none) (hy : isGap false y)
    (hsegs : segs ≠ []) :
    maskSegments names skip (x :: y :: segs) =
      x :: y :: mask.toList :: maskSegments names none (afterValue segs) := by
  rw [maskSegments, if_pos ⟨hx, hy, hsegs⟩]

theorem maskSegments_miss (h : ¬(nextSkip names skip x ≠ none ∧ isGap false y ∧ segs ≠ [])) :
    maskSegments names skip (x :: y :: segs) =
      x :: maskSegments names (nextSkip names skip x) (y :: segs) := by
  rw [maskSegments, if_neg h]

/-- A segment that is no name, or is not taken for one, is passed over. -/
theorem maskSegments_of_none (h : nextSkip names skip x = none) :
    maskSegments names skip (x :: segs) = x :: maskSegments names none segs := by
  cases segs with
  | nil => simp
  | cons y segs => rw [maskSegments_miss fun hx => hx.1 h, h]

/-- The first segment stays, and stays the only one if it is. -/
theorem exists_maskSegments_cons (names : List (List Char)) (skip : Option (List Char))
    (x : List Char) (segs : List (List Char)) :
    ∃ more, maskSegments names skip (x :: segs) = x :: more ∧ (more = [] ↔ segs = []) := by
  induction segs generalizing skip x with
  | nil => exact ⟨[], maskSegments_singleton, by simp⟩
  | cons y segs ih =>
    obtain ⟨more, hmore, -⟩ := ih (nextSkip names skip x) y
    rw [maskSegments, hmore]
    split
    · exact ⟨_, rfl, by simp⟩
    · exact ⟨_, rfl, by simp⟩

/-- Masking brings no segment but the stars. -/
theorem mem_maskSegments (h : x ∈ maskSegments names skip segs) : x ∈ segs ∨ x = mask.toList := by
  fun_induction maskSegments names skip segs with
  | case1 skip a b segs hhit ih =>
    rcases List.mem_cons.1 h with rfl | h
    · exact .inl (.head _)
    · rcases List.mem_cons.1 h with rfl | h
      · exact .inl (.tail _ (.head _))
      · rcases List.mem_cons.1 h with rfl | h
        · exact .inr rfl
        · exact (ih h).imp_left fun hx => .tail _ (.tail _ ((afterValue_suffix segs).subset hx))
  | case2 skip a b segs hmiss ih =>
    rcases List.mem_cons.1 h with rfl | h
    · exact .inl (.head _)
    · exact (ih h).imp_left (.tail _)
  | case3 => exact .inl h

/-- The scan for one name from an occurrence on. -/
theorem redactBehind_spell (hx : foldText x = name) (hy : Unquoted y)
    (hrest : ∀ z ∈ rest, Unquoted z)
    (ih : ∀ segs, segs <:+ rest →
      redactName name (spell segs) = spell (maskSegments [name] none segs)) :
    '"' :: (x ++ '"' :: redactBehind name (y ++ spell rest)) =
      spell (maskSegments [name] none (x :: y :: rest)) := by
  have hnamed : nextSkip [name] none x = some name :=
    nextSkip_eq_some_iff.2 ⟨hx, .head _, nofun⟩
  have hskipped : nextSkip [name] (some name) y = none := by
    by_cases hy : foldText y = name
    · exact hy ▸ nextSkip_self
    · exact nextSkip_of_ne hy
  by_cases hgap : isGap false y ∧ rest ≠ []
  · obtain ⟨v, rest, rfl⟩ := List.exists_cons_of_ne_nil hgap.2
    obtain ⟨hv, hrest⟩ := List.forall_mem_cons.1 hrest
    have hfound : gap? false (y ++ spell (v :: rest)) = some (y ++ ['"'], v ++ spell rest) := by
      rw [spell, gap?_spell hy, if_pos hgap.1]
    rw [maskSegments_hit (hnamed ▸ nofun) hgap.1 hgap.2, redactBehind_of_some hfound,
      fromClosing_spell hrest hv, ih _ (afterValue_suffix _)]
    simp [spell]
  · have hnone : gap? false (y ++ spell rest) = none := by
      cases rest with
      | nil => rw [spell, List.append_nil, gap?_unquoted hy]
      | cons v rest => rw [spell, gap?_spell hy, if_neg fun h => hgap ⟨h, by simp⟩]
    rw [maskSegments_miss fun h => hgap h.2, hnamed, redactBehind_of_none hnone,
      redactName_append hy, maskSegments_of_none hskipped, ih _ (List.suffix_refl rest)]
    rfl

/-- The scan for one name. -/
theorem redactName_spell (hname : Unquoted name) (hsegs : ∀ x ∈ segs, Unquoted x) :
    redactName name (spell segs) = spell (maskSegments [name] none segs) := by
  induction hn : segs.length using Nat.strongRecOn generalizing segs with
  | _ n ih =>
    match segs with
    | [] => simp [spell]
    | [x] =>
      have hx := hsegs x (.head _)
      simp [spell, redactName_quote_of_none (afterName?_unquoted hx), redactName_of_unquoted hx]
    | x :: y :: rest =>
      obtain ⟨hx, htail⟩ := List.forall_mem_cons.1 hsegs
      obtain ⟨hy, hrest⟩ := List.forall_mem_cons.1 htail
      have ih {segs' : List (List Char)} (h : segs' <:+ y :: rest) :
          redactName name (spell segs') = spell (maskSegments [name] none segs') :=
        ih _ (hn ▸ Nat.lt_succ_of_le h.length_le) (fun z hz => htail z (h.subset hz)) rfl
      by_cases hfold : foldText x = name
      · rw [spell, spell, redactName_occurrence hfold, redactBehind_spell hfold hy hrest]
        exact fun segs' h => ih (h.trans (List.suffix_cons ..))
      · have hnone : afterName? name (x ++ spell (y :: rest)) = none := by
          rw [afterName?_spell hx hname, if_neg hfold]
        rw [maskSegments_of_none (nextSkip_of_ne hfold), spell, redactName_quote_of_none hnone,
          redactName_append hx, ih (List.suffix_refl _), spell]

end Logbook.Trace.Mask
