import Logbook.Text.Ascii

/-!
# Masked fields

Values of registered fields are never written. `redact` works on the raw text of a body, whole or
truncated, and does not need it to be JSON: behind each quoted occurrence of a name, in any case of
its letters, that is followed by a colon and an opening quote, the characters up to the closing
quote are replaced. A quote behind a backslash does not close.
-/

namespace Logbook.Trace.Mask

/-- What stands in place of a masked value. -/
def mask : String := "******"

/-- What follows `name` and a quote, if the text starts with these; `name` is compared without
regard to case. -/
def afterName? : List Char → List Char → Option (List Char)
  | [], '"' :: text => some text
  | [], _ => none
  | k :: name, c :: text => if Ascii.fold c = k then afterName? name text else none
  | _ :: _, [] => none

theorem length_of_afterName? {name text rest : List Char} (h : afterName? name text = some rest) :
    rest.length + name.length + 1 = text.length := by
  fun_induction afterName? name text with
  | case1 text => cases h; simp
  | case2 => cases h
  | case3 name c text ih => have := ih h; simp; omega
  | case4 => cases h
  | case5 => cases h

def isSpace (c : Char) : Bool := c = ' ' ∨ c = '\t' ∨ c = '\r' ∨ c = '\n'

/-- The gap between a key and its value, one colon among blanks, with the opening quote of the
value; and the text behind that quote. -/
def gap? (colonSeen : Bool) : List Char → Option (List Char × List Char)
  | [] => none
  | c :: text =>
    if isSpace c then (gap? colonSeen text).map fun (gap, rest) => (c :: gap, rest)
    else if c = ':' ∧ !colonSeen then (gap? true text).map fun (gap, rest) => (c :: gap, rest)
    else if c = '"' ∧ colonSeen then some ([c], text)
    else none

theorem append_of_gap? {seen : Bool} {text gap rest : List Char}
    (h : gap? seen text = some (gap, rest)) : gap ++ rest = text := by
  induction text generalizing seen gap rest with
  | nil => simp [gap?] at h
  | cons c text ih =>
    simp only [gap?] at h
    split at h
    · obtain ⟨⟨g, r⟩, hg, he⟩ := Option.map_eq_some_iff.1 h
      cases he; simp [ih hg]
    · split at h
      · obtain ⟨⟨g, r⟩, hg, he⟩ := Option.map_eq_some_iff.1 h
        cases he; simp [ih hg]
      · split at h
        · cases h; simp
        · cases h

/-- The text from the closing quote on; nothing if no quote closes. -/
def fromClosing (escaped : Bool) : List Char → List Char
  | [] => []
  | c :: text =>
    if escaped then fromClosing false text
    else if c = '\\' then fromClosing true text
    else if c = '"' then c :: text
    else fromClosing false text

theorem length_fromClosing_le (escaped : Bool) (text : List Char) :
    (fromClosing escaped text).length ≤ text.length := by
  fun_induction fromClosing escaped text <;> simp_all <;> omega

/-- Replaces the values behind the folded name. The closing quote of a value stays and may open
the next key. -/
def redactName (name : List Char) : List Char → List Char
  | [] => []
  | c :: text =>
    if c = '"' then
      match _h : afterName? name text with
      | none => c :: redactName name text
      | some rest =>
        let key := c :: text.take (name.length + 1)
        match _g : gap? false rest with
        | none => key ++ redactName name rest
        | some (gap, value) =>
          key ++ gap ++ mask.toList ++ redactName name (fromClosing false value)
    else c :: redactName name text
termination_by text => text.length
decreasing_by
  · simp
  · have := length_of_afterName? _h; simp; omega
  · have := length_of_afterName? _h
    have := congrArg List.length (append_of_gap? _g)
    have := length_fromClosing_le false value
    simp at *; omega
  · simp

/-- Redacts one field; the empty name stands for no field. -/
def redactField (text : List Char) (field : List Char) : List Char :=
  if field.isEmpty then text else redactName (Ascii.foldText field) text

def redact (text : List Char) (fields : List (List Char)) : List Char :=
  fields.foldl redactField text

/-! ## The registered names -/

/-- The names whose values are never written, each folded and once. A body is searched for them in
the order of the list. That order is nobody's choice: a set that hashes its names goes through them
as their places in the table come, so whatever is said of a registry is said of any order. -/
structure Registry where
  names : List String

namespace Registry

def empty : Registry := ⟨[]⟩

def add (r : Registry) (name : String) : Registry :=
  let name := Ascii.foldString name
  if r.names.contains name then r else ⟨r.names ++ [name]⟩

def register (r : Registry) (names : List String) : Registry := names.foldl add r

def isMasked (r : Registry) (name : String) : Bool := r.names.contains (Ascii.foldString name)

/-- The names as they are listed for a reader. -/
def sorted (r : Registry) : List String := r.names.mergeSort fun a b => !(b < a)

/-- A body with the values of every registered name masked, one name after the other. -/
def redact (r : Registry) (body : String) : String :=
  String.ofList (Mask.redact body.toList (r.names.map String.toList))

end Registry

end Logbook.Trace.Mask
