import Logbook.Proofs.Trace.Layout

/-! The identifiers of one process. Workers take them at the same time: each reads the clock, counts
one up and then writes its text, and the others may come between any two of these. Which place an
identifier has among all is settled by the counter, and its text tells this place up to the width of
its last part. -/

namespace Logbook.Trace.Id

/-- The counter rises by one. -/
def Source.rise (s : Source) : Source := { s with counter := s.counter + 1 }

/-- The text for a reading of the clock and a number that was counted. -/
def Source.text (s : Source) (millis : Nat) (count : UInt32) : List Char :=
  encode millis s.machine (count.toNat % Nat.pow 2 24)

/-- Undisturbed, the parts are one. -/
theorem Source.next_eq (s : Source) (millis : Nat) :
    s.next millis = (s.text millis s.counter, s.rise) := rfl

/-- An identifier that was counted, with its text if that is written. -/
structure Issue where
  millis : Nat
  count : UInt32
  text : Option (List Char)

/-- Where a worker stands. -/
inductive Worker where
  | idle
  /-- It has read the clock. -/
  | timed (millis : Nat)
  /-- It has counted; the place of its identifier. -/
  | counted (place : Nat)

structure Mint where
  source : Source
  workers : List Worker
  /-- In the order in which they were counted. -/
  issues : List Issue

namespace Mint

def start (source : Source) : Mint := ⟨source, [], []⟩

/-- A worker makes its next move. The clock may give anything. -/
inductive Step (s : Mint) : Mint → Prop where
  | joins : Step s { s with workers := s.workers ++ [.idle] }
  | reads {i : Nat} (h : s.workers[i]? = some .idle) (millis : Nat) :
      Step s { s with workers := s.workers.set i (.timed millis) }
  | counts {i millis : Nat} (h : s.workers[i]? = some (.timed millis)) :
      Step s ⟨s.source.rise, s.workers.set i (.counted s.issues.length),
        s.issues ++ [⟨millis, s.source.counter, none⟩]⟩
  | writes {i place : Nat} {a : Issue} (h : s.workers[i]? = some (.counted place))
      (ha : s.issues[place]? = some a) :
      Step s { s with
        workers := s.workers.set i .idle
        issues := s.issues.set place { a with text := some (s.source.text a.millis a.count) } }

inductive Reachable (source : Source) : Mint → Prop where
  | start : Reachable source (start source)
  | step {s t : Mint} (H : Reachable source s) (h : Step s t) : Reachable source t

variable {source : Source} {s t : Mint} {i j : Nat} {a b : Issue}

/-- The number of an identifier in its place, counted from the first number. -/
structure Issue.Fits (source : Source) (place : Nat) (a : Issue) : Prop where
  count : a.count.toNat = (source.counter.toNat + place) % 2 ^ 32
  text : ∀ text, a.text = some text → text = source.text a.millis a.count

structure Inv (source : Source) (s : Mint) : Prop where
  machine : s.source.machine = source.machine
  counter : s.source.counter.toNat = (source.counter.toNat + s.issues.length) % 2 ^ 32
  issues : ∀ i a, s.issues[i]? = some a → Issue.Fits source i a

theorem inv_start (source : Source) : (start source).Inv source where
  machine := rfl
  counter := (Nat.mod_eq_of_lt source.counter.toNat_lt).symm
  issues _ _ h := nomatch h

theorem text_congr {source source' : Source} (h : source.machine = source'.machine) (millis : Nat)
    (count : UInt32) : source.text millis count = source'.text millis count := by
  rw [Source.text, Source.text, h]

theorem Inv.step (H : s.Inv source) (h : Step s t) : t.Inv source := by
  cases h with
  | joins | reads => exact ⟨H.machine, H.counter, H.issues⟩
  | @counts i millis =>
    refine ⟨H.machine, ?_, fun j b hb => ?_⟩
    · rw [List.length_append, List.length_singleton, ← Nat.add_assoc, ← Nat.mod_add_mod,
        ← H.counter]
      exact UInt32.toNat_add ..
    · rw [List.getElem?_append] at hb
      split at hb
      · exact H.issues j b hb
      · next hle =>
        obtain ⟨hlt, rfl⟩ := List.getElem?_eq_some_iff.mp hb
        rw [List.length_singleton] at hlt
        obtain rfl : j = s.issues.length := by omega
        simp only [Nat.sub_self, List.getElem_cons_zero]
        exact ⟨H.counter, nofun⟩
  | @writes i place a _ ha =>
    refine ⟨H.machine, ?_, fun j b hb => ?_⟩
    · rw [List.length_set]
      exact H.counter
    · by_cases hne : place = j
      · subst hne
        obtain ⟨hlt, -⟩ := List.getElem?_eq_some_iff.mp ha
        cases (List.getElem?_set_self hlt).symm.trans hb
        refine ⟨(H.issues place a ha).count, fun text htext => ?_⟩
        cases htext
        exact text_congr H.machine ..
      · rw [List.getElem?_set_ne hne] at hb
        exact H.issues j b hb

theorem Reachable.inv (h : Reachable source s) : s.Inv source := by
  induction h with
  | start => exact inv_start source
  | step _ h ih => exact ih.step h

/-- Equal texts have places that differ by a multiple of what the last part can count. -/
theorem Issue.Fits.text_eq_iff (ha : Issue.Fits source i a) (hb : Issue.Fits source j b) :
    source.text a.millis a.count = source.text b.millis b.count ↔
      i % 65536 = j % 65536 ∧ a.millis % 2 ^ 40 = b.millis % 2 ^ 40 := by
  have hmask : Nat.pow 2 24 = 2 ^ 24 := rfl
  -- both wraps of the counter keep the remainder at the width of its last part
  rw [Source.text, Source.text, encode_eq_iff, ha.count, hb.count, hmask]
  simp only [kept, List.cons.injEq, and_true, true_and]
  omega

/-- **Identifiers of one process.** Whatever number the counter starts from, whoever comes when, and
whatever the clock gives: among 65536 identifiers that were counted one after the other no two are
equal, also where the counter or its mask wraps. Two identifiers are equal exactly if their places
differ by a multiple of 65536 and their milliseconds are the same at the width of the time. -/
theorem distinct_of_reachable (h : Reachable source s) :
    (∀ n, (((s.issues.drop n).take 65536).filterMap Issue.text).Nodup) ∧
    ∀ i j a b x y, s.issues[i]? = some a → s.issues[j]? = some b →
      a.text = some x → b.text = some y →
      (x = y ↔ i % 65536 = j % 65536 ∧ a.millis % 2 ^ 40 = b.millis % 2 ^ 40) := by
  have heq (i j : Nat) (a b : Issue) (x y : List Char) (ha : s.issues[i]? = some a)
      (hb : s.issues[j]? = some b) (hx : a.text = some x) (hy : b.text = some y) :
      x = y ↔ i % 65536 = j % 65536 ∧ a.millis % 2 ^ 40 = b.millis % 2 ^ 40 := by
    have hfits := h.inv.issues i a ha
    have hfits' := h.inv.issues j b hb
    rw [hfits.text x hx, hfits'.text y hy, hfits.text_eq_iff hfits']
  refine ⟨fun n => List.pairwise_filterMap.mpr (List.pairwise_iff_getElem.mpr ?_), heq⟩
  intro i j hi hj hlt x hx y hy hxy
  rw [List.length_take, List.length_drop] at hi hj
  rw [List.getElem_take, List.getElem_drop] at hx hy
  have hplaces := ((heq (n + i) (n + j) _ _ x y (List.getElem?_eq_getElem _)
    (List.getElem?_eq_getElem _) hx hy).mp hxy).1
  omega

/-- Two workers; the one that read the later time counts second, where the counter wraps. -/
theorem distinct_wrapped : ∃ s : Mint, Reachable ⟨5, 0xFFFFFFFF⟩ s ∧
    s.issues.map Issue.millis = [7, 9] ∧ s.issues.map Issue.count = [0xFFFFFFFF, 0] ∧
    ∃ x y, s.issues.map Issue.text = [some x, some y] ∧ x ≠ y := by
  have h : Reachable ⟨5, 0xFFFFFFFF⟩ ⟨⟨5, 0xFFFFFFFF⟩, [.idle, .idle], []⟩ :=
    .step (.step .start .joins) .joins
  have h := (h.step (@Step.reads _ 0 rfl 9)).step (@Step.reads _ 1 rfl 7)
  have h := (h.step (@Step.counts _ 1 7 rfl)).step (@Step.counts _ 0 9 rfl)
  have h := (h.step (@Step.writes _ 0 1 _ rfl rfl)).step (@Step.writes _ 1 0 _ rfl rfl)
  refine ⟨_, h, rfl, rfl, _, _, rfl, fun heq => ?_⟩
  have hplaces := ((distinct_of_reachable h).2 0 1 _ _ _ _ rfl rfl rfl rfl).mp heq
  exact absurd hplaces.1 (by decide)

end Mint

end Logbook.Trace.Id
