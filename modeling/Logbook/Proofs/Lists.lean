import Mathlib.Data.List.Basic

/-! Lists to which something happens in the middle or at the end, and lists whose elements are
numbered by their places. -/

namespace Logbook

theorem mem_between {α : Type} {x y : α} {before after : List α} :
    x ∈ before ++ y :: after ↔ x = y ∨ x ∈ before ++ after := by
  simp only [List.mem_append, List.mem_cons, or_left_comm]

theorem lt_of_numbered {α : Type} {x : α} {l : List α} {number : α → Nat}
    (h : l.map number = List.range l.length) (hx : x ∈ l) : number x < l.length := by
  have hmem := List.mem_map_of_mem (f := number) hx
  rw [h] at hmem
  exact List.mem_range.mp hmem

theorem numbered_concat {α : Type} {x : α} {l : List α} {number : α → Nat}
    (h : l.map number = List.range l.length) (hx : number x = l.length) :
    (l ++ [x]).map number = List.range (l ++ [x]).length := by
  rw [List.map_append, h, List.length_append, List.length_singleton, List.range_succ,
    List.map_singleton, hx]

/-- A part of a list is its last element, or is a part of the list without it. -/
theorem append_cons_eq_concat {α : Type} {x y : α} {l before after : List α}
    (h : before ++ x :: after = l ++ [y]) :
    (before = l ∧ x = y ∧ after = []) ∨ ∃ later, l = before ++ x :: later := by
  rcases List.eq_nil_or_concat after with rfl | ⟨later, z, rfl⟩
  · obtain ⟨rfl, rfl⟩ := List.append_singleton_inj.mp h
    exact .inl ⟨rfl, rfl, rfl⟩
  · rw [List.concat_eq_append, ← List.cons_append, ← List.append_assoc] at h
    exact .inr ⟨later, (List.append_singleton_inj.mp h).1.symm⟩

/-- What holds of all elements of some lists but the last one of each, and in lists before the last
one also of that, holds of all but the last element of these lists together. -/
theorem forall_mem_dropLast_flatMap {α β : Type} {p : β → Prop} {f : α → List β} {l : List α}
    (h : ∀ x ∈ l.dropLast, ∀ y ∈ f x, p y) (h' : ∀ x ∈ l, ∀ y ∈ (f x).dropLast, p y) :
    ∀ y ∈ (l.flatMap f).dropLast, p y := by
  rcases List.eq_nil_or_concat l with rfl | ⟨l, x, rfl⟩
  · exact nofun
  rw [List.concat_eq_append, List.dropLast_concat] at h
  rw [List.concat_eq_append, List.forall_mem_append, List.forall_mem_singleton] at h'
  have hbefore : ∀ y ∈ l.flatMap f, p y := List.forall_mem_flatMap.mpr h
  rw [List.concat_eq_append, List.flatMap_append, List.flatMap_singleton, List.dropLast_append]
  split
  · exact fun y hy => hbefore y ((List.dropLast_sublist _).mem hy)
  · exact List.forall_mem_append.mpr ⟨hbefore, h'.2⟩

end Logbook
