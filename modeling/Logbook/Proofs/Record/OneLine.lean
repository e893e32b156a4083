import Logbook.Record.Line
import Logbook.Proofs.Json.Distinct

/-! A record is written on one line. Control characters of texts are escaped, and nothing else that
is written has any, so that no character of a line is below the space (`printable_line`). -/

namespace Logbook

namespace Json

variable {c : Char} {rest : List Char}

/-- No control character, in the sense of JSON. -/
def Printable (c : Char) : Prop := 32 ≤ c.toNat

instance : DecidablePred Printable := fun _ => inferInstanceAs (Decidable (_ ≤ _))

theorem printable_of_all {text : List Char} (h : text.all (Printable ·) = true) :
    ∀ c ∈ text, Printable c :=
  fun c hc => of_decide_eq_true (List.all_eq_true.mp h c hc)

theorem printable_of_isDigit (h : c.isDigit = true) : Printable c :=
  Nat.le_trans (by decide) (Char.isDigit_iff_toNat.mp h).1

theorem printable_of_isNumeric (h : Decimal.isNumeric c = true) : Printable c := by
  by_cases hdigit : c.isDigit = true
  · exact printable_of_isDigit hdigit
  · have hmark : c = '.' ∨ c = 'e' ∨ c = '+' ∨ c = '-' := by
      simpa [Decimal.isNumeric, hdigit, or_assoc] using h
    obtain rfl | rfl | rfl | rfl := hmark <;> decide

theorem printable_hexByte (n : Nat) : ∀ c ∈ Digits.hexByte n, Printable c := by
  have hdigit : ∀ d < 16, Printable (Digits.hexDigit d) := by decide
  intro c hc
  rcases List.mem_cons.mp hc with rfl | hc
  · exact hdigit _ (Nat.mod_lt _ (by decide))
  · obtain rfl := List.mem_singleton.mp hc
    exact hdigit _ (Nat.mod_lt _ (by decide))

/-- A control character is escaped, and other characters are none. -/
theorem printable_escape (x : Char) : ∀ c ∈ escape x, Printable c := by
  rcases escape_cases x with ⟨letter, hletter, hx⟩ | ⟨-, hx⟩ | ⟨hx, -, -, hx'⟩
  · have hletters : ∀ pair ∈ letters, Printable pair.1 := by decide
    rw [hx]
    exact List.forall_mem_cons.mpr
      ⟨by decide, List.forall_mem_singleton.mpr (hletters _ hletter)⟩
  · rw [hx]
    have hbegin : ∀ c ∈ ['\\', 'u', '0', '0'], Printable c := printable_of_all rfl
    exact List.forall_mem_append.mpr ⟨hbegin, printable_hexByte _⟩
  · rw [hx]
    exact List.forall_mem_singleton.mpr (Nat.not_lt.mp hx')

theorem printable_renderString (text : String) : ∀ c ∈ renderString text, Printable c := by
  intro c hc
  rcases List.mem_append.mp hc with hc | hc
  · rcases List.mem_cons.mp hc with rfl | hc
    · decide
    · obtain ⟨x, -, hx⟩ := List.mem_flatMap.mp hc
      exact printable_escape x c hx
  · obtain rfl := List.mem_singleton.mp hc
    decide

theorem printable_renderReal (x : Float) : ∀ c ∈ renderReal x, Printable c := by
  rw [renderReal]
  split
  · next h => exact fun c hc => printable_of_isNumeric (Decimal.isNumeric_render h _ c hc)
  · exact printable_of_all rfl

mutual

/-- No text of a value has a control character. -/
theorem printable_render : ∀ v : Json, ∀ c ∈ v.render, Printable c
  | .null => printable_of_all rfl
  | .bool true => printable_of_all rfl
  | .bool false => printable_of_all rfl
  | .integer n => fun c hc => by
    rw [render] at hc
    rcases mem_integer n c hc with hdigit | rfl
    · exact printable_of_isDigit hdigit
    · decide
  | .real x => by
    rw [render]
    exact printable_renderReal x
  | .string text => by
    rw [render]
    exact printable_renderString text
  | .array items => by
    rw [render]
    refine List.forall_mem_append.mpr
      ⟨List.forall_mem_cons.mpr ⟨by decide, ?_⟩, printable_of_all rfl⟩
    exact printable_renderItems items
  | .object members => by
    rw [render]
    refine List.forall_mem_append.mpr
      ⟨List.forall_mem_cons.mpr ⟨by decide, ?_⟩, printable_of_all rfl⟩
    exact printable_renderMembers members

theorem printable_renderItems : ∀ items : List Json, ∀ c ∈ renderItems items, Printable c
  | [] => nofun
  | [item] => by
    rw [renderItems]
    exact printable_render item
  | item :: next :: items => by
    rw [renderItems]
    · refine List.forall_mem_append.mpr ⟨printable_render item, ?_⟩
      refine List.forall_mem_cons.mpr ⟨by decide, ?_⟩
      exact printable_renderItems (next :: items)
    · exact List.cons_ne_nil _ _

theorem printable_renderMembers : ∀ members : List (String × Json), ∀ c ∈ renderMembers members,
    Printable c
  | [] => nofun
  | [(key, value)] => by
    rw [renderMembers]
    exact List.forall_mem_append.mpr
      ⟨printable_renderString key, List.forall_mem_cons.mpr ⟨by decide, printable_render value⟩⟩
  | (key, value) :: next :: members => by
    rw [renderMembers]
    · refine List.forall_mem_append.mpr ⟨List.forall_mem_append.mpr ⟨printable_renderString key,
        List.forall_mem_cons.mpr ⟨by decide, printable_render value⟩⟩,
        List.forall_mem_cons.mpr ⟨by decide, ?_⟩⟩
      exact printable_renderMembers (next :: members)
    · exact List.cons_ne_nil _ _

end

end Json

namespace Record

/-- **No line of a record contains a control character.** -/
theorem printable_line (masked : Trace.Mask.Registry) (r : Record) :
    ∀ c ∈ (r.line masked).toList, Json.Printable c := by
  rw [line, Json.text, String.toList_ofList]
  exact Json.printable_render _

theorem newline_not_mem_line (masked : Trace.Mask.Registry) (r : Record) :
    '\n' ∉ (r.line masked).toList :=
  fun h => absurd (printable_line masked r _ h) (by decide)

end Record

end Logbook
