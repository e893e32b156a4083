import Mathlib.Data.List.Forall2
import Logbook.Text.Ascii

/-! Only letters A to Z fold, and only to letters a to z (`fold_eq_iff`), so that texts fold to the
same text if they are equal but for the case of these letters (`foldText_eq_iff`). -/

namespace Logbook.Ascii

/-- The same character, or the same letter A to Z in the other case. -/
def SameLetter (c d : Char) : Prop :=
  c = d ∨ c.isUpper = true ∧ d.toNat = c.toNat + 32 ∨ d.isUpper = true ∧ c.toNat = d.toNat + 32

/-- Names that are equal but for the case of letters A to Z. -/
def SameName (a b : String) : Prop := List.Forall₂ SameLetter a.toList b.toList

theorem isUpper_iff (c : Char) : c.isUpper = true ↔ 65 ≤ c.toNat ∧ c.toNat ≤ 90 := by
  have hupper : c.isUpper = decide (c.val ≥ 65 ∧ c.val ≤ 90) := rfl
  rw [hupper, decide_eq_true_eq]
  exact and_congr UInt32.le_iff_toNat_le UInt32.le_iff_toNat_le

theorem toNat_fold (c : Char) : (fold c).toNat = if c.isUpper then c.toNat + 32 else c.toNat := by
  have hupper := isUpper_iff c
  unfold fold Char.toLower
  split
  · next h =>
    have h : 65 ≤ c.toNat ∧ c.toNat ≤ 90 := by simpa [UInt32.le_iff_toNat_le] using h
    have hlt : c.toNat + 32 < 2 ^ 32 := by omega
    rw [if_pos (hupper.mpr h)]
    exact (UInt32.toNat_add ..).trans (Nat.mod_eq_of_lt hlt)
  · next h =>
    have h : ¬ (65 ≤ c.toNat ∧ c.toNat ≤ 90) := by simpa [UInt32.le_iff_toNat_le] using h
    rw [if_neg fun hup => h (hupper.mp hup)]

/-- Only letters fold, and only to letters. -/
theorem fold_eq_iff {c x : Char} (hx : x.toNat < 65 ∨ 90 < x.toNat ∧ x.toNat < 97 ∨ 122 < x.toNat) :
    fold c = x ↔ c = x := by
  have hupper := isUpper_iff c
  rw [← Char.toNat_inj, ← Char.toNat_inj, toNat_fold]
  split <;> grind

theorem fold_eq_fold_iff (c d : Char) : fold c = fold d ↔ SameLetter c d := by
  have hc := isUpper_iff c
  have hd := isUpper_iff d
  rw [SameLetter, ← Char.toNat_inj, ← Char.toNat_inj, toNat_fold, toNat_fold]
  split <;> split <;> grind

theorem foldText_eq_iff (a b : List Char) :
    foldText a = foldText b ↔ List.Forall₂ SameLetter a b := by
  rw [foldText, foldText, ← List.forall₂_eq_eq_eq, List.forall₂_map_left_iff,
    List.forall₂_map_right_iff]
  simp only [fold_eq_fold_iff]

theorem foldString_eq_iff (a b : String) : foldString a = foldString b ↔ SameName a b := by
  rw [foldString, foldString, String.ofList_inj, foldText_eq_iff, SameName]

instance (a b : String) : Decidable (SameName a b) :=
  decidable_of_iff _ (foldString_eq_iff a b)

end Logbook.Ascii
