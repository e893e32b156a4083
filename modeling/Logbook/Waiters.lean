/-!
# Waiters

A bell that several may wait for. Whoever waits is listed; ringing the bell lets all go that are
listed at that moment. A waiter that is no longer listed has been let go, also if it has not looked
yet.
-/

namespace Logbook

structure Waiters (ι : Type) where
  listed : List ι

namespace Waiters

variable {ι : Type} [DecidableEq ι]

def none : Waiters ι := ⟨[]⟩

def enlist (i : ι) (w : Waiters ι) : Waiters ι :=
  if i ∈ w.listed then w else ⟨w.listed ++ [i]⟩

def strike (i : ι) (w : Waiters ι) : Waiters ι := ⟨w.listed.filter (· ≠ i)⟩

def isListed (i : ι) (w : Waiters ι) : Bool := i ∈ w.listed

/-- Lets all go, in the order in which they came. -/
def ring (w : Waiters ι) : List ι × Waiters ι := (w.listed, none)

theorem mem_enlist {i j : ι} {w : Waiters ι} : j ∈ (w.enlist i).listed ↔ j ∈ w.listed ∨ j = i := by
  unfold enlist
  split
  · next h => exact ⟨.inl, fun hj => hj.elim id fun hj => hj ▸ h⟩
  · simp

theorem mem_strike {i j : ι} {w : Waiters ι} : j ∈ (w.strike i).listed ↔ j ∈ w.listed ∧ j ≠ i := by
  simp [strike]

theorem enlist_of_mem {i : ι} {w : Waiters ι} (h : i ∈ w.listed) : w.enlist i = w := if_pos h

theorem strike_of_not_mem {i : ι} {w : Waiters ι} (h : i ∉ w.listed) : w.strike i = w := by
  rw [strike, List.filter_eq_self.mpr]
  intro j hj
  exact decide_eq_true fun heq => h (heq ▸ hj)

/-- Who comes and leaves at once leaves the list as it was. -/
theorem strike_enlist {i : ι} {w : Waiters ι} (h : i ∉ w.listed) : (w.enlist i).strike i = w := by
  have hfilter : w.listed.filter (· ≠ i) = w.listed := congrArg listed (strike_of_not_mem h)
  rw [enlist, if_neg h, strike, List.filter_append, hfilter]
  simp

end Waiters

end Logbook
