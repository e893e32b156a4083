import Mathlib.Data.List.TakeWhile
import Logbook.Text.Blank

/-! Trimming takes white space from both ends of a text and nothing else (`exists_trim`), and gives
back a text without white space that stands between blanks (`trim_append`). -/

namespace Logbook.Blank

variable {text before after : List Char}

theorem dropWhile_append (hbefore : ∀ c ∈ before, isBlank c = true)
    (htext : ∀ c ∈ text, isBlank c = false) (hne : text ≠ []) (rest : List Char) :
    (before ++ (text ++ rest)).dropWhile isBlank = text ++ rest := by
  rw [List.dropWhile_append_of_pos hbefore]
  obtain ⟨c, text, rfl⟩ := List.exists_cons_of_ne_nil hne
  exact List.dropWhile_cons_of_neg (by rw [htext c (.head _)]; exact Bool.false_ne_true)

theorem trim_append (hbefore : ∀ c ∈ before, isBlank c = true)
    (htext : ∀ c ∈ text, isBlank c = false) (hafter : ∀ c ∈ after, isBlank c = true)
    (hne : text ≠ []) : trim (before ++ text ++ after) = text := by
  have hback : (after.reverse ++ (text.reverse ++ [])).dropWhile isBlank = text.reverse ++ [] :=
    dropWhile_append (fun c hc => hafter c (List.mem_reverse.mp hc))
      (fun c hc => htext c (List.mem_reverse.mp hc)) (List.reverse_ne_nil_iff.mpr hne) []
  rw [List.append_nil] at hback
  rw [trim, List.append_assoc, dropWhile_append hbefore htext hne, List.reverse_append, hback,
    List.reverse_reverse]

theorem exists_trim (text : List Char) : ∃ before after, text = before ++ trim text ++ after ∧
    (∀ c ∈ before, isBlank c = true) ∧ ∀ c ∈ after, isBlank c = true := by
  have hall (l : List Char) : ∀ c ∈ l.takeWhile isBlank, isBlank c = true :=
    List.all_eq_true.mp List.all_takeWhile
  refine ⟨text.takeWhile isBlank, ((text.dropWhile isBlank).reverse.takeWhile isBlank).reverse,
    ?_, hall _, fun c hc => hall _ c (List.mem_reverse.mp hc)⟩
  rw [trim, List.append_assoc, ← List.reverse_append, List.takeWhile_append_dropWhile,
    List.reverse_reverse, List.takeWhile_append_dropWhile]

theorem isBlankText_iff {text : String} :
    isBlankText text = true ↔ ∀ c ∈ text.toList, isBlank c = true := by
  rw [isBlankText, List.isEmpty_iff]
  constructor
  · intro hnil
    obtain ⟨before, after, heq, hbefore, hafter⟩ := exists_trim text.toList
    rw [hnil, List.append_nil] at heq
    rw [heq]
    exact List.forall_mem_append.mpr ⟨hbefore, hafter⟩
  · intro hall
    rw [trim, List.dropWhile_eq_nil_iff.mpr hall]
    rfl

end Logbook.Blank
