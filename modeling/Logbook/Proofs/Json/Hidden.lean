import Logbook.Proofs.Json.Written

/-!
# Hiding members of a JSON text

`Document.mask` hides the strings that are values of members with certain keys, at any depth, and
changes nothing else. Maskings compose: a string is hidden if one of them hides it.
-/

namespace Logbook.Json.Written

/-- What stands between the quotes of a hidden string. -/
def stars : Quoted := List.replicate 6 (.plain '*' (by decide))

/-- A value of a member; if it is hidden and a string, its characters are not shown. -/
def Value.hide (hidden : Bool) : Value → Value
  | .string s => .string (if hidden then stars else s)
  | v => v

mutual

/-- Hides the strings that are values of members with a key that is hit, at any depth. -/
def Value.mask (hit : Quoted → Bool) : Value → Value
  | .array items => .array (items.mask hit)
  | .object members => .object (members.mask hit)
  | v => v

def Items.mask (hit : Quoted → Bool) : Items → Items
  | .last before value after => .last before (value.mask hit) after
  | .cons before value after rest => .cons before (value.mask hit) after (rest.mask hit)

def Members.mask (hit : Quoted → Bool) : Members → Members
  | .last before key beforeColon afterColon value after =>
    .last before key beforeColon afterColon ((value.mask hit).hide (hit key)) after
  | .cons before key beforeColon afterColon value after rest =>
    .cons before key beforeColon afterColon ((value.mask hit).hide (hit key)) after (rest.mask hit)

end

def Document.mask (hit : Quoted → Bool) (d : Document) : Document :=
  { d with value := d.value.mask hit }

/-- What is left of a document when the strings of all members are hidden. -/
def Document.shape (d : Document) : Document := d.mask fun _ => true

variable {p q : Quoted → Bool}

theorem Value.hide_false (v : Value) : v.hide false = v := by
  cases v <;> rfl

theorem Value.hide_hide (v : Value) (a b : Bool) : (v.hide a).hide b = v.hide (a || b) := by
  cases v <;> cases a <;> cases b <;> rfl

theorem Value.hide_mask {v : Value} (hv : ∀ s, v ≠ .string s) (a : Bool) :
    (v.mask p).hide a = v.mask p := by
  cases v with
  | string s => exact absurd rfl (hv s)
  | _ => rfl

theorem Value.mask_hide (v : Value) (a : Bool) : (v.hide a).mask p = (v.mask p).hide a := by
  cases v <;> simp [Value.hide, Value.mask]

mutual

theorem Value.mask_none (v : Value) : v.mask (fun _ => false) = v := by
  cases v with
  | array items => simp [Value.mask, items.mask_none]
  | object members => simp [Value.mask, members.mask_none]
  | _ => rfl

theorem Items.mask_none (items : Items) : items.mask (fun _ => false) = items := by
  cases items with
  | last before value after => simp [Items.mask, value.mask_none]
  | cons before value after rest => simp [Items.mask, value.mask_none, rest.mask_none]

theorem Members.mask_none (members : Members) : members.mask (fun _ => false) = members := by
  cases members with
  | last before key beforeColon afterColon value after =>
    simp [Members.mask, value.mask_none, value.hide_false]
  | cons before key beforeColon afterColon value after rest =>
    simp [Members.mask, value.mask_none, value.hide_false, rest.mask_none]

end

mutual

theorem Value.mask_mask (v : Value) : (v.mask p).mask q = v.mask fun key => p key || q key := by
  cases v with
  | array items => simp [Value.mask, items.mask_mask]
  | object members => simp [Value.mask, members.mask_mask]
  | _ => simp [Value.mask]

theorem Items.mask_mask (items : Items) :
    (items.mask p).mask q = items.mask fun key => p key || q key := by
  cases items with
  | last before value after => simp [Items.mask, value.mask_mask]
  | cons before value after rest => simp [Items.mask, value.mask_mask, rest.mask_mask]

theorem Members.mask_mask (members : Members) :
    (members.mask p).mask q = members.mask fun key => p key || q key := by
  cases members with
  | last before key beforeColon afterColon value after =>
    simp [Members.mask, Value.mask_hide, Value.hide_hide, value.mask_mask]
  | cons before key beforeColon afterColon value after rest =>
    simp [Members.mask, Value.mask_hide, Value.hide_hide, value.mask_mask, rest.mask_mask]

end

/-- Masking for no key changes nothing. -/
theorem Document.mask_none (d : Document) : d.mask (fun _ => false) = d := by
  simp [Document.mask, Value.mask_none]

/-- Masking twice hides what either hides. -/
theorem Document.mask_mask (d : Document) :
    (d.mask p).mask q = d.mask fun key => p key || q key := by
  simp [Document.mask, Value.mask_mask]

end Logbook.Json.Written
