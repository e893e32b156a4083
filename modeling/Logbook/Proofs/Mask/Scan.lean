import Logbook.Proofs.Text.Ascii
import Logbook.Trace.Mask

/-!
# The scan for a masked name

What one move of `redactName` does: it passes over a character, over a quote that opens no
occurrence of the name, or over an occurrence and, if a value follows, over that value.
-/

namespace Logbook.Trace.Mask

variable {name key text rest value gap : List Char} {c : Char}

/-- The name occurs at a quote when characters that fold to it, and another quote, follow. -/
theorem afterName?_eq_some_iff :
    afterName? name text = some rest ↔
      ∃ key, text = key ++ '"' :: rest ∧ Ascii.foldText key = name := by
  constructor
  · intro h
    fun_induction afterName? name text with
    | case1 text => cases h; exact ⟨[], rfl, rfl⟩
    | case2 => cases h
    | case3 name c text ih =>
      obtain ⟨key, rfl, rfl⟩ := ih h
      exact ⟨c :: key, rfl, rfl⟩
    | case4 => cases h
    | case5 => cases h
  · rintro ⟨key, rfl, rfl⟩
    induction key with
    | nil => rfl
    | cons c key ih => simpa [Ascii.foldText, afterName?] using ih

theorem gap?_append {blank : List Char} (h : ∀ c ∈ blank, isSpace c) (seen : Bool) :
    gap? seen (blank ++ rest) =
      (gap? seen rest).map fun (gap, value) => (blank ++ gap, value) := by
  induction blank with
  | nil => simp
  | cons c blank ih =>
    rw [List.cons_append, gap?, if_pos (h c List.mem_cons_self),
      ih fun d hd => h d (List.mem_cons_of_mem _ hd), Option.map_map]
    rfl

/-! ## Moves -/

@[simp] theorem redactName_nil : redactName name [] = [] := by rw [redactName]

theorem redactName_cons_of_ne (h : c ≠ '"') :
    redactName name (c :: text) = c :: redactName name text := by
  rw [redactName, if_neg h]

theorem redactName_quote_of_none (h : afterName? name text = none) :
    redactName name ('"' :: text) = '"' :: redactName name text := by
  rw [redactName, if_pos rfl]
  split
  · rfl
  · next hs => rw [h] at hs; cases hs

/-- What comes of the text behind an occurrence of the name. -/
def redactBehind (name rest : List Char) : List Char :=
  match gap? false rest with
  | none => redactName name rest
  | some (gap, value) => gap ++ mask.toList ++ redactName name (fromClosing false value)

theorem redactBehind_of_none (h : gap? false rest = none) :
    redactBehind name rest = redactName name rest := by
  rw [redactBehind, h]

theorem redactBehind_of_some (h : gap? false rest = some (gap, value)) :
    redactBehind name rest = gap ++ mask.toList ++ redactName name (fromClosing false value) := by
  rw [redactBehind, h]

theorem redactName_occurrence (h : Ascii.foldText key = name) :
    redactName name ('"' :: (key ++ '"' :: rest)) =
      '"' :: (key ++ '"' :: redactBehind name rest) := by
  have hsome : afterName? name (key ++ '"' :: rest) = some rest :=
    afterName?_eq_some_iff.2 ⟨key, rfl, h⟩
  have hkey : (key ++ '"' :: rest).take (name.length + 1) = key ++ ['"'] := by
    subst h
    rw [show key ++ '"' :: rest = (key ++ ['"']) ++ rest by simp]
    exact List.take_left' (by simp [Ascii.foldText])
  rw [redactName, if_pos rfl]
  split
  · next hn => rw [hsome] at hn; cases hn
  · next rest' hs =>
    rw [hsome] at hs
    cases hs
    rw [hkey, redactBehind]
    split
    · next hg => simp [hg]
    · next gap value hg => simp [hg]

/-- Text without a quote stays as it is. -/
theorem redactName_append (h : ∀ c ∈ text, c ≠ '"') :
    redactName name (text ++ rest) = text ++ redactName name rest := by
  induction text with
  | nil => rfl
  | cons c text ih =>
    rw [List.cons_append, redactName_cons_of_ne (h c List.mem_cons_self),
      ih fun d hd => h d (List.mem_cons_of_mem _ hd), List.cons_append]

end Logbook.Trace.Mask
