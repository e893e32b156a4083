/-!
# Maps with sorted keys

A map from texts to values, kept in the order of its keys (code points, hence also bytes of their
UTF-8 form). `get?` reads it, `insert` and `alter` write one key and leave the others alone.
-/

namespace Logbook

structure KeyMap (α : Type) where
  entries : List (String × α)
  sorted : entries.Pairwise fun a b => a.1 < b.1

namespace KeyMap

variable {α : Type} {key other : String} {f : Option α → α} {es : List (String × α)}

def empty : KeyMap α := ⟨[], .nil⟩

instance : Inhabited (KeyMap α) := ⟨empty⟩

def isEmpty (m : KeyMap α) : Bool := m.entries.isEmpty

def lookup (key : String) : List (String × α) → Option α
  | [] => none
  | (k, v) :: rest => if k = key then some v else lookup key rest

def get? (m : KeyMap α) (key : String) : Option α := lookup key m.entries

/-- Sets the value of `key` from the one it had; a new key goes to its place in the order. -/
def alterEntries (key : String) (f : Option α → α) : List (String × α) → List (String × α)
  | [] => [(key, f none)]
  | (k, v) :: rest =>
    if k = key then (key, f (some v)) :: rest
    else if key < k then (key, f none) :: (k, v) :: rest
    else (k, v) :: alterEntries key f rest

theorem lt_of_mem_alterEntries {k : String} {e : String × α} (hk : k < key)
    (hes : ∀ e ∈ es, k < e.1) (h : e ∈ alterEntries key f es) : k < e.1 := by
  induction es with
  | nil =>
    rw [alterEntries, List.mem_singleton] at h
    rwa [h]
  | cons first es ih =>
    have hrest : ∀ e ∈ es, k < e.1 := fun e he => hes e (List.mem_cons_of_mem _ he)
    rw [alterEntries] at h
    split at h
    · rcases List.mem_cons.1 h with rfl | h
      · exact hk
      · exact hrest e h
    · split at h
      · rcases List.mem_cons.1 h with rfl | h
        · exact hk
        · exact hes e h
      · rcases List.mem_cons.1 h with rfl | h
        · exact hes _ List.mem_cons_self
        · exact ih hrest h

theorem pairwise_alterEntries (h : es.Pairwise fun a b => a.1 < b.1) :
    (alterEntries key f es).Pairwise fun a b => a.1 < b.1 := by
  induction es with
  | nil => simp [alterEntries]
  | cons first es ih =>
    obtain ⟨k, v⟩ := first
    obtain ⟨hfirst, hes⟩ := List.pairwise_cons.1 h
    rw [alterEntries]
    split
    · next heq => exact List.pairwise_cons.2 ⟨heq ▸ hfirst, hes⟩
    · next hne =>
      split
      · next hlt =>
        refine List.pairwise_cons.2 ⟨fun e he => ?_, h⟩
        rcases List.mem_cons.1 he with rfl | he
        · exact hlt
        · exact String.lt_trans hlt (hfirst e he)
      · next hle =>
        have hlt : k < key := by
          rcases Std.lt_trichotomy k key with hlt | heq | hgt
          · exact hlt
          · exact absurd heq hne
          · exact absurd hgt hle
        exact List.pairwise_cons.2 ⟨fun e => lt_of_mem_alterEntries hlt hfirst, ih hes⟩

def alter (m : KeyMap α) (key : String) (f : Option α → α) : KeyMap α :=
  ⟨alterEntries key f m.entries, pairwise_alterEntries m.sorted⟩

def insert (m : KeyMap α) (key : String) (value : α) : KeyMap α := m.alter key fun _ => value

@[simp] theorem get?_empty : (empty : KeyMap α).get? key = none := rfl

/-- A write leaves the other keys alone. -/
theorem get?_alter_of_ne (m : KeyMap α) (h : other ≠ key) :
    (m.alter key f).get? other = m.get? other := by
  have entries (es : List (String × α)) :
      lookup other (alterEntries key f es) = lookup other es := by
    induction es with
    | nil => simp [alterEntries, lookup, h.symm]
    | cons e es ih =>
      obtain ⟨k, v⟩ := e
      by_cases hk : k = key
      · subst hk; simp [alterEntries, lookup, h.symm]
      · by_cases hl : key < k
        · simp [alterEntries, lookup, hk, hl, h.symm]
        · simp [alterEntries, lookup, hk, hl, ih]
  exact entries m.entries

theorem lookup_of_lt (h : ∀ e ∈ es, key < e.1) : lookup key es = none := by
  induction es with
  | nil => rfl
  | cons e es ih =>
    have hne : e.1 ≠ key := fun heq => String.lt_irrefl key (heq ▸ h e List.mem_cons_self)
    rw [lookup, if_neg hne, ih fun e he => h e (List.mem_cons_of_mem _ he)]

/-- A write sets its key from the value that was there. -/
theorem get?_alter_self (m : KeyMap α) : (m.alter key f).get? key = some (f (m.get? key)) := by
  have entries {es : List (String × α)} (h : es.Pairwise fun a b => a.1 < b.1) :
      lookup key (alterEntries key f es) = some (f (lookup key es)) := by
    induction es with
    | nil => simp [alterEntries, lookup]
    | cons e es ih =>
      obtain ⟨k, v⟩ := e
      obtain ⟨hfirst, hes⟩ := List.pairwise_cons.1 h
      by_cases hk : k = key
      · simp [alterEntries, lookup, hk]
      · by_cases hl : key < k
        · have hrest : ∀ e ∈ es, key < e.1 := fun e he => String.lt_trans hl (hfirst e he)
          simp [alterEntries, lookup, hk, hl, lookup_of_lt hrest]
        · simp [alterEntries, lookup, hk, hl, ih hes]
  exact entries m.sorted

end KeyMap

end Logbook
