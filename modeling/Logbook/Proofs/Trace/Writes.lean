import Logbook.Proofs.Record.Ending

/-! What a scope holds after a list of writes, key by key: under a context key the values of all
puts in order, under a stat what the writes made of it one after the other. Notes are puts of one
text each. -/

namespace Logbook.Trace.Scope

variable {s : Scope} {key : String}

/-- The values that a write puts under a key, as they are written. -/
def Write.values? (key : String) : Write → Option (List String)
  | .put masked other values =>
    if other = key then some (Record.written masked key values) else none
  | .setStat .. | .addStat .. => none

/-- What a write makes of the stat under a key. -/
def Write.statAfter (key : String) (old : Option Float) : Write → Option Float
  | .put .. => old
  | .setStat other value => if other = key then some value else old
  | .addStat other delta => if other = key then some (old.getD 0.0 + delta) else old

/-- Whether a write is one to the stat under a key. -/
def Write.touches (key : String) : Write → Bool
  | .put .. => false
  | .setStat other _ | .addStat other _ => other = key

theorem context_apply (w : Write) : (w.apply s).context.get? key =
    match w.values? key with
    | none => s.context.get? key
    | some values => some ((s.context.get? key).getD [] ++ values) := by
  cases w with
  | put masked other values =>
    by_cases h : other = key
    · subst h
      rw [Write.values?, if_pos rfl]
      exact KeyMap.get?_alter_self _
    · rw [Write.values?, if_neg h]
      exact KeyMap.get?_alter_of_ne _ (Ne.symm h)
  | setStat | addStat => rfl

theorem stats_apply (w : Write) :
    (w.apply s).stats.get? key = w.statAfter key (s.stats.get? key) := by
  have hset (other : String) (value : Float) : (s.setStat other value).stats.get? key =
      if other = key then some value else s.stats.get? key := by
    by_cases h : other = key
    · subst h
      rw [if_pos rfl]
      exact KeyMap.get?_alter_self _
    · rw [if_neg h]
      exact KeyMap.get?_alter_of_ne _ (Ne.symm h)
  cases w with
  | put => rfl
  | setStat other value => exact hset other value
  | addStat other delta =>
    refine (hset other _).trans ?_
    rw [Write.statAfter]
    by_cases h : other = key
    · subst h
      rfl
    · rw [if_neg h, if_neg h]

theorem writeAll_append (writes later : List Write) (s : Scope) :
    s.writeAll (writes ++ later) = (s.writeAll writes).writeAll later :=
  List.foldl_append

/-- **Context values in order.** The values of all puts under a key, behind those that were there; a
key that nobody put is not there. -/
theorem context_writeAll (writes : List Write) : (s.writeAll writes).context.get? key =
    match writes.filterMap (Write.values? key) with
    | [] => s.context.get? key
    | puts => some ((s.context.get? key).getD [] ++ puts.flatten) := by
  induction writes generalizing s with
  | nil => rfl
  | cons w writes ih =>
    refine (ih (s := w.apply s)).trans ?_
    rw [context_apply, List.filterMap_cons]
    cases w.values? key with
    | none => rfl
    | some values =>
      cases hputs : writes.filterMap (Write.values? key) with
      | nil => simp
      | cons first puts => simp [List.append_assoc]

theorem stats_writeAll (writes : List Write) :
    (s.writeAll writes).stats.get? key = writes.foldl (Write.statAfter key) (s.stats.get? key) := by
  induction writes generalizing s with
  | nil => rfl
  | cons w writes ih =>
    refine (ih (s := w.apply s)).trans ?_
    rw [stats_apply]
    rfl

/-- The same scope under another action. -/
def rename (action : String) (s : Scope) : Scope := { s with action := action }

theorem writeAll_rename (action : String) (writes : List Write) (s : Scope) :
    (s.rename action).writeAll writes = (s.writeAll writes).rename action := by
  induction writes generalizing s with
  | nil => rfl
  | cons w writes ih =>
    have hw : w.apply (s.rename action) = (w.apply s).rename action := by cases w <;> rfl
    rw [writeAll, List.foldl_cons, hw]
    exact ih (w.apply s)

/-- A stat that no write is about stays as it is. -/
theorem foldl_statAfter {writes : List Write} (h : ∀ w ∈ writes, w.touches key = false)
    (old : Option Float) : writes.foldl (Write.statAfter key) old = old := by
  induction writes generalizing old with
  | nil => rfl
  | cons w writes ih =>
    have hw : w.statAfter key old = old := by
      have hw := h w (.head _)
      cases w with
      | put => rfl
      | setStat | addStat => exact if_neg (of_decide_eq_false hw)
    rw [List.foldl_cons, hw]
    exact ih (fun w hw => h w (.tail _ hw)) old

/-- A stat is there as soon as a write is about it, and stays. -/
theorem isSome_foldl_statAfter (writes : List Write) (old : Option Float) :
    (writes.foldl (Write.statAfter key) old).isSome = true ↔
      old.isSome = true ∨ ∃ w ∈ writes, w.touches key = true := by
  induction writes generalizing old with
  | nil => simp
  | cons w writes ih =>
    have hw : (w.statAfter key old).isSome = true ↔ old.isSome = true ∨ w.touches key = true := by
      cases w with
      | put => simp [Write.statAfter, Write.touches]
      | setStat other | addStat other =>
        by_cases h : other = key <;> simp [Write.statAfter, Write.touches, h]
    rw [List.foldl_cons, ih, hw, or_assoc]
    simp

/-! ## Notes -/

variable {masked : Mask.Registry}

/-- The puts that note each text under its key. -/
def noting (masked : Mask.Registry) (notes : List (String × String)) : List Write :=
  notes.map fun note => .put masked note.1 [note.2]

/-- The texts that are noted under a key. -/
def noted (key : String) (notes : List (String × String)) : List String :=
  (notes.filter fun note => note.1 = key).map (·.2)

theorem values?_noting (notes : List (String × String)) :
    (noting masked notes).filterMap (Write.values? key) =
      (noted key notes).map fun text => Record.written masked key [text] := by
  induction notes with
  | nil => rfl
  | cons note notes ih =>
    rw [noting, List.map_cons, List.filterMap_cons, ← noting, ih, Write.values?]
    by_cases h : note.1 = key <;> simp [noted, h]

theorem flatten_written (texts : List String) :
    (texts.map fun text => Record.written masked key [text]).flatten =
      Record.written masked key texts := by
  induction texts with
  | nil => exact (ite_self []).symm
  | cons text texts ih =>
    rw [List.map_cons, List.flatten_cons, ih]
    unfold Record.written
    split <;> rfl

/-- Notes stand behind what a key had before; a key that is not noted is as it was. -/
theorem context_noting (notes : List (String × String)) (s : Scope) :
    (s.writeAll (noting masked notes)).context.get? key =
      if noted key notes = [] then s.context.get? key
      else some ((s.context.get? key).getD [] ++ Record.written masked key (noted key notes)) := by
  rw [context_writeAll, values?_noting]
  cases h : noted key notes with
  | nil => rfl
  | cons text texts => rw [← flatten_written]; rfl

theorem stats_noting (notes : List (String × String)) (s : Scope) :
    (s.writeAll (noting masked notes)).stats = s.stats := by
  induction notes generalizing s with
  | nil => rfl
  | cons note notes ih => exact ih (s.put masked note.1 [note.2])

end Logbook.Trace.Scope
