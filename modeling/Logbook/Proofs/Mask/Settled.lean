import Logbook.Proofs.Mask.Orders

/-!
# Masking a text again

A text is settled for a name if the scan for the name leaves it as it is. What a scan leaves is
settled for its name (`maskSegments_idem`), and the scans for other names keep it so
(`Settled.maskSegments`), unless a value behind another name ends in this one and goes on with it:
then the quote that ended the name begins it once the value is masked. Apart from that a masked text
stays as it is (`redact_again`).
-/

namespace Logbook.Trace.Mask

open Ascii

variable {name other third : List Char} {x y v : List Char} {rest segs : List (List Char)}
  {names : List (List Char)} {skip skip' : Option (List Char)}

/-! ## Stars -/

theorem foldText_stars : foldText mask.toList = mask.toList := by decide

theorem isGap_stars : isGap false mask.toList = false := by decide

theorem eq_stars_of_foldText (h : foldText name = mask.toList) : name = mask.toList := by
  have hlength : name.length = 6 := (List.length_map fold).symm.trans (congrArg List.length h)
  refine List.eq_replicate_iff.2 ⟨hlength, fun c hc => ?_⟩
  have hstar : fold c ∈ mask.toList := h ▸ List.mem_map_of_mem hc
  exact (fold_eq_iff (by decide)).1
    (List.eq_of_mem_replicate (show fold c ∈ List.replicate 6 '*' from hstar))

theorem afterValue_stars (segs : List (List Char)) : afterValue (mask.toList :: segs) = segs := rfl

/-- Stars are neither a gap nor another name, so they are passed over. -/
theorem maskSegments_stars (hname : name ≠ mask.toList) (segs : List (List Char)) :
    maskSegments [name] skip (y :: mask.toList :: segs) =
      y :: mask.toList :: maskSegments [name] none segs := by
  have hstars : foldText mask.toList ∉ [name] := fun h =>
    hname (foldText_stars.symm.trans (List.mem_singleton.1 h)).symm
  have hstops : Stops [name] (mask.toList :: segs) := by
    cases segs with
    | nil => trivial
    | cons z segs => exact ⟨isGap_stars, hstars⟩
  rw [maskSegments_of_stops hstops, maskSegments_of_none (nextSkip_of_not_mem hstars)]

/-! ## One name -/

/-- A scan finds what it found before, with stars for the values. -/
theorem maskSegments_idem :
    maskSegments names skip (maskSegments names skip segs) = maskSegments names skip segs := by
  fun_induction maskSegments names skip segs with
  | case1 skip x y segs hhit ih =>
    rw [maskSegments_hit hhit.1 hhit.2.1 (by simp), afterValue_stars, ih]
  | case2 skip x y segs hmiss ih =>
    obtain ⟨more, hmore, hnil⟩ := exists_maskSegments_cons names (nextSkip names skip x) y segs
    have hmiss : ¬(nextSkip names skip x ≠ none ∧ isGap false y ∧ more ≠ []) :=
      fun h => hmiss ⟨h.1, h.2.1, mt hnil.2 h.2.2⟩
    rw [hmore] at ih ⊢
    rw [maskSegments_miss hmiss, ih]
  | case3 skip segs hshort => rw [maskSegments.eq_2 names skip segs hshort]

/-- The scan for the name leaves the segments as they are. -/
def Settled (name : List Char) (skip : Option (List Char)) (segs : List (List Char)) : Prop :=
  maskSegments [name] skip segs = segs

/-- The first two segments are an occurrence of the name and a gap, and a value follows. -/
def Hit (name : List Char) (skip : Option (List Char)) (x y : List Char)
    (segs : List (List Char)) : Prop :=
  nextSkip [name] skip x ≠ none ∧ isGap false y ∧ segs ≠ []

namespace Settled

theorem nil : Settled name skip [] := maskSegments_nil

theorem singleton : Settled name skip [x] := maskSegments_singleton

theorem cons (hx : nextSkip [name] skip x = none) (h : Settled name none segs) :
    Settled name skip (x :: segs) := by
  rw [Settled, maskSegments_of_none hx, h]

theorem of_none (h : Settled name skip (x :: segs)) (hx : nextSkip [name] skip x = none) :
    Settled name none segs := by
  rw [Settled, maskSegments_of_none hx] at h
  exact (List.cons.inj h).2

theorem hit (hx : nextSkip [name] skip x ≠ none) (hy : isGap false y) (h : Settled name none segs) :
    Settled name skip (x :: y :: mask.toList :: segs) := by
  rw [Settled, maskSegments_hit hx hy (by simp), afterValue_stars, h]

/-- A value that is found in a settled text is masked. -/
theorem of_hit (h : Settled name skip (x :: y :: segs)) (hhit : Hit name skip x y segs) :
    ∃ rest, segs = mask.toList :: rest ∧ Settled name none rest := by
  rw [Settled, maskSegments_hit hhit.1 hhit.2.1 hhit.2.2] at h
  have hrest := (List.cons.inj (List.cons.inj h).2).2
  exact ⟨maskSegments [name] none (Mask.afterValue segs), hrest.symm, maskSegments_idem⟩

theorem miss (hmiss : ¬Hit name skip x y segs)
    (h : Settled name (nextSkip [name] skip x) (y :: segs)) :
    Settled name skip (x :: y :: segs) := by
  rw [Settled, maskSegments_miss hmiss, h]

theorem of_miss (h : Settled name skip (x :: y :: segs)) (hmiss : ¬Hit name skip x y segs) :
    Settled name (nextSkip [name] skip x) (y :: segs) := by
  rw [Settled, maskSegments_miss hmiss] at h
  exact (List.cons.inj h).2

theorem stars (hname : name ≠ mask.toList) (h : Settled name none segs) :
    Settled name skip (y :: mask.toList :: segs) := by
  rw [Settled, maskSegments_stars hname, h]

end Settled

/-! ## Values behind another name -/

theorem escapes_of_isGap {seen : Bool} (h : isGap seen x) : escapes false x = false :=
  escapes_of_unescaped fun c hc heq => by
    induction x generalizing seen with
    | nil => cases hc
    | cons d x ih =>
      rw [isGap] at h
      split at h
      · next hspace =>
        rcases List.mem_cons.1 hc with rfl | hc
        · rw [heq] at hspace
          cases hspace
        · exact ih h hc
      · obtain ⟨⟨hcolon, -⟩, hx⟩ : (d = ':' ∧ _) ∧ isGap true x := by simpa using h
        rcases List.mem_cons.1 hc with rfl | hc
        · cases hcolon.symm.trans heq
        · exact ih hx hc

/-- A value that begins with the first segment ends in the name, and the name comes again. -/
def Repeats (name : List Char) : List (List Char) → Prop
  | x :: y :: segs =>
    if escapes false x then Repeats name (y :: segs)
    else foldText x = name ∧ foldText y = name ∧ segs ≠ []
  | _ => False

theorem repeats_of_escapes (hx : escapes false x = true) :
    Repeats name (x :: y :: segs) ↔ Repeats name (y :: segs) := by
  rw [Repeats, if_pos hx]

theorem repeats_of_not_escapes (hx : escapes false x = false) :
    Repeats name (x :: y :: segs) ↔ foldText x = name ∧ foldText y = name ∧ segs ≠ [] := by
  rw [Repeats, if_neg (by simp [hx])]

/-- Behind a value the text is settled as it was, unless the value ends in the name and goes on with
it. -/
theorem Settled.afterValue (hplain : ∀ c ∈ name, c ≠ '\\') (hname : name ≠ mask.toList)
    (honce : ¬Repeats name segs) (h : Settled name skip segs) :
    Settled name none (afterValue segs) := by
  induction segs generalizing skip with
  | nil => exact .nil
  | cons x segs ih =>
    rw [Mask.afterValue]
    cases segs with
    | nil => split <;> exact .nil
    | cons y segs =>
      cases hx : escapes false x with
      | true =>
        rw [repeats_of_escapes hx] at honce
        exact ih honce (h.of_none (nextSkip_of_ne (foldText_ne_of_escapes hplain hx)))
      | false =>
        rw [repeats_of_not_escapes hx] at honce
        rw [if_neg Bool.false_ne_true]
        by_cases hhit : Hit name skip x y segs
        · obtain ⟨rest, rfl, hrest⟩ := h.of_hit hhit
          exact hrest.stars hname
        · have hy := h.of_miss hhit
          by_cases hnext : nextSkip [name] skip x = none
          · rwa [hnext] at hy
          · by_cases hsegs : segs = []
            · exact hsegs ▸ .singleton
            · have hne : foldText y ≠ name := fun heq =>
                honce ⟨foldText_of_nextSkip hnext, heq, hsegs⟩
              exact .cons (nextSkip_of_ne hne) (hy.of_none (nextSkip_of_ne hne))

/-- The same with the gap in front of the value, which may itself be the name. -/
theorem Settled.behindGap (hplain : ∀ c ∈ name, c ≠ '\\') (hname : name ≠ mask.toList)
    (honce : ¬Repeats name segs) (h : Settled name skip (x :: segs)) :
    Settled name none (Mask.afterValue segs) := by
  cases segs with
  | nil => exact .nil
  | cons y segs =>
    by_cases hhit : Hit name skip x y segs
    · obtain ⟨rest, rfl, hrest⟩ := h.of_hit hhit
      have hstars : foldText mask.toList ≠ name := fun heq => hname (heq ▸ foldText_stars)
      rw [Mask.afterValue, escapes_of_isGap hhit.2.1, if_neg Bool.false_ne_true]
      exact .cons (nextSkip_of_ne hstars) hrest
    · exact (h.of_miss hhit).afterValue hplain hname honce

/-- No value behind the one name ends in the other one that comes again. -/
def Once (other name : List Char) (segs : List (List Char)) : Prop :=
  ∀ ⦃x y rest⦄, x :: y :: rest <:+ segs → foldText x = other → isGap false y → ¬Repeats name rest

theorem Once.suffix {segs' : List (List Char)} (h : Once other name segs) (hs : segs' <:+ segs) :
    Once other name segs' :=
  fun _ _ _ hx => h (hx.trans hs)

/-- The scan for another name keeps a text settled. -/
theorem Settled.maskSegments (hplain : ∀ c ∈ name, c ≠ '\\') (hname : name ≠ mask.toList)
    (hother : other ≠ mask.toList) (hne : other ≠ name) (honce : Once other name segs)
    (h : Settled name skip segs) : Settled name skip (maskSegments [other] skip' segs) := by
  induction hn : segs.length using Nat.strongRecOn generalizing segs skip skip' with
  | _ n ih =>
    match segs with
    | [] => simpa using h
    | [x] => simpa using h
    | x :: y :: segs =>
      have ih {segs' : List (List Char)} {skip : Option (List Char)} (skip' : Option (List Char))
          (hs : segs' <:+ y :: segs) (h : Settled name skip segs') :
          Settled name skip (Mask.maskSegments [other] skip' segs') := by
        have honce' := honce.suffix (hs.trans (List.suffix_cons ..))
        exact ih _ (hn ▸ Nat.lt_succ_of_le hs.length_le) honce' h rfl
      have htail : segs <:+ y :: segs := List.suffix_cons ..
      by_cases hhit : Hit other skip' x y segs
      · obtain ⟨hx, hy, hsegs⟩ := hhit
        have hfold := foldText_of_nextSkip hx
        have hpass : nextSkip [name] skip x = none := nextSkip_of_ne (hfold ▸ hne)
        have hvalue := (h.of_none hpass).behindGap hplain hname
          (honce (List.suffix_refl _) hfold hy)
        rw [maskSegments_hit hx hy hsegs]
        exact .cons hpass (.stars hname (ih none ((afterValue_suffix _).trans htail) hvalue))
      · rw [maskSegments_miss hhit]
        by_cases hfound : Hit name skip x y segs
        · obtain ⟨rest, rfl, hrest⟩ := h.of_hit hfound
          rw [maskSegments_stars hother]
          exact .hit hfound.1 hfound.2.1 (ih none ((List.suffix_cons ..).trans htail) hrest)
        · obtain ⟨more, hmore, hnil⟩ :=
            exists_maskSegments_cons [other] (nextSkip [other] skip' x) y segs
          have hy := ih (nextSkip [other] skip' x) (List.suffix_refl _) (h.of_miss hfound)
          rw [hmore] at hy ⊢
          exact .miss (fun hm => hfound ⟨hm.1, hm.2.1, mt hnil.2 hm.2.2⟩) hy

/-! ## What a scan leaves of the values -/

theorem not_repeats_stars (hname : name ≠ mask.toList) : ¬Repeats name (mask.toList :: segs) := by
  cases segs with
  | nil => exact id
  | cons y segs =>
    rw [repeats_of_not_escapes rfl]
    exact fun h => hname (h.1.symm.trans foldText_stars)

theorem not_repeats_gap (hname : name ≠ mask.toList) (hx : isGap false x) :
    ¬Repeats name (x :: mask.toList :: segs) := by
  rw [repeats_of_not_escapes (escapes_of_isGap hx)]
  exact fun h => hname (h.2.1.symm.trans foldText_stars)

/-- A scan leaves a value that ends in a name and goes on with it as it was. -/
theorem Repeats.of_maskSegments (hthird : ∀ c ∈ third, c ≠ '\\')
    (h : Repeats name (maskSegments [third] skip segs)) : Repeats name segs := by
  induction segs generalizing skip with
  | nil => simpa using h
  | cons x segs ih =>
    cases segs with
    | nil => simpa using h
    | cons y segs =>
      by_cases hhit : Hit third skip x y segs
      · have hx : escapes false x = false := Bool.eq_false_iff.2 fun hx =>
          foldText_ne_of_escapes hthird hx (foldText_of_nextSkip hhit.1)
        rw [maskSegments_hit hhit.1 hhit.2.1 hhit.2.2, repeats_of_not_escapes hx] at h
        exact (repeats_of_not_escapes hx).2 ⟨h.1, h.2.1, hhit.2.2⟩
      · obtain ⟨more, hmore, hnil⟩ :=
          exists_maskSegments_cons [third] (nextSkip [third] skip x) y segs
        rw [maskSegments_miss hhit, hmore] at h
        cases hx : escapes false x with
        | true =>
          rw [repeats_of_escapes hx] at h ⊢
          exact ih (hmore ▸ h)
        | false =>
          rw [repeats_of_not_escapes hx] at h ⊢
          exact ⟨h.1, h.2.1, mt hnil.2 h.2.2⟩

theorem Once.cons (h : Once other name segs)
    (hx : ∀ {y rest}, segs = y :: rest → foldText x = other → isGap false y → ¬Repeats name rest) :
    Once other name (x :: segs) := by
  intro x' y rest hsuffix hfold hy
  rcases List.suffix_cons_iff.1 hsuffix with heq | hsuffix
  · obtain ⟨rfl, hrest⟩ := List.cons.inj heq
    exact hx hrest.symm hfold hy
  · exact h hsuffix hfold hy

theorem Once.maskSegments (hthird : ∀ c ∈ third, c ≠ '\\') (hother : other ≠ mask.toList)
    (hname : name ≠ mask.toList) (h : Once other name segs) :
    Once other name (maskSegments [third] skip segs) := by
  fun_induction Mask.maskSegments [third] skip segs with
  | case1 skip x y segs hhit ih =>
    have hsuffix : afterValue segs <:+ x :: y :: segs :=
      (afterValue_suffix segs).trans ((List.suffix_cons ..).trans (List.suffix_cons ..))
    have hstars := (ih (h.suffix hsuffix)).cons (x := mask.toList) fun _ hfold =>
      absurd (hfold.symm.trans foldText_stars) hother
    have hgap := hstars.cons (x := y) fun heq _ hgap => by
      rw [← (List.cons.inj heq).1] at hgap
      cases isGap_stars.symm.trans hgap
    exact hgap.cons fun heq _ _ => (List.cons.inj heq).2 ▸ not_repeats_stars hname
  | case2 skip x y segs hmiss ih =>
    refine (ih (h.suffix (List.suffix_cons ..))).cons fun {y' rest} heq hfold hy => ?_
    obtain ⟨more, hmore, -⟩ := exists_maskSegments_cons [third] (nextSkip [third] skip x) y segs
    obtain ⟨rfl, rfl⟩ := List.cons.inj (hmore.symm.trans heq)
    have hrest := h (List.suffix_refl _) hfold hy
    cases segs with
    | nil =>
      rw [maskSegments_singleton] at hmore
      exact (List.cons.inj hmore).2 ▸ id
    | cons z segs =>
      by_cases hhit : Hit third (nextSkip [third] skip x) y z segs
      · rw [maskSegments_hit hhit.1 hhit.2.1 hhit.2.2] at hmore
        exact (List.cons.inj hmore).2 ▸ not_repeats_gap hname hhit.2.1
      · rw [maskSegments_miss hhit] at hmore
        exact (List.cons.inj hmore).2 ▸ mt (Repeats.of_maskSegments hthird) hrest
  | case3 skip segs hshort => exact h

/-! ## Texts -/

/-- The value that the text begins with ends in the name, and behind the closing quote the name
comes again. -/
def Recurs (name text : List Char) : Prop :=
  ∃ tail ∈ ('"' :: text).tails, ∃ behind ∈ behindKey? name tail,
    fromClosing false text = '"' :: behind ∧ (afterName? name behind).isSome

/-- A value behind one of the names ends, between quotes, in another one that comes again right
behind it. -/
def Reopens (names : List (List Char)) (text : List Char) : Prop :=
  ∃ tail ∈ text.tails, ∃ name ∈ names, ∃ rest ∈ behindKey? (foldText name) tail,
    ∃ found ∈ gap? false rest, ∃ other ∈ names,
      foldText other ≠ foldText name ∧ Recurs (foldText other) found.2

instance : DecidablePred (Recurs name) := fun _ =>
  inferInstanceAs (Decidable (∃ _ ∈ _, ∃ _ ∈ _, _))

instance : DecidablePred (Reopens names) := fun _ =>
  inferInstanceAs (Decidable (∃ _ ∈ _, ∃ _ ∈ _, ∃ _ ∈ _, ∃ _ ∈ _, ∃ _ ∈ _, _))

theorem exists_of_repeats (h : Repeats name segs) :
    ∃ before x y z rest, segs = before ++ x :: y :: z :: rest ∧
      afterValue segs = y :: z :: rest ∧ foldText x = name ∧ foldText y = name := by
  induction segs with
  | nil => cases h
  | cons x segs ih =>
    cases segs with
    | nil => cases h
    | cons y segs =>
      cases hx : escapes false x with
      | true =>
        obtain ⟨before, x', y', z, rest, heq, hafter, hfold⟩ := ih ((repeats_of_escapes hx).1 h)
        refine ⟨x :: before, x', y', z, rest, congrArg (x :: ·) heq, ?_, hfold⟩
        rw [afterValue, hx, if_pos rfl, hafter]
      | false =>
        obtain ⟨hx', hy', hsegs⟩ := (repeats_of_not_escapes hx).1 h
        obtain ⟨z, rest, rfl⟩ := List.exists_cons_of_ne_nil hsegs
        refine ⟨[], x, y, z, rest, rfl, ?_, hx', hy'⟩
        rw [afterValue, hx, if_neg Bool.false_ne_true]

theorem recurs_of_repeats (hx : Unquoted x) (hsegs : ∀ y ∈ segs, Unquoted y)
    (h : Repeats name (x :: segs)) : Recurs name (x ++ spell segs) := by
  obtain ⟨before, u, v, w, rest, heq, hafter, hu, hv⟩ := exists_of_repeats h
  have htail : spell (u :: v :: w :: rest) ∈ ('"' :: (x ++ spell segs)).tails := by
    rw [List.mem_tails, ← spell.eq_2, heq, spell_append]
    exact List.suffix_append ..
  have hbehind : behindKey? name (spell (u :: v :: w :: rest)) = some (v ++ spell (w :: rest)) :=
    afterName?_eq_some_iff.2 ⟨u, rfl, hu⟩
  have hagain : afterName? name (v ++ spell (w :: rest)) = some (w ++ spell rest) :=
    afterName?_eq_some_iff.2 ⟨v, rfl, hv⟩
  refine ⟨_, htail, _, hbehind, ?_, hagain ▸ rfl⟩
  rw [fromClosing_spell hsegs hx, hafter, spell]

theorem once_of_not_reopens {head : List Char} (hsegs : ∀ x ∈ segs, Unquoted x)
    (h : ¬Reopens names (head ++ spell segs)) (hname : name ∈ names) (hother : other ∈ names)
    (hne : foldText other ≠ foldText name) : Once (foldText name) (foldText other) segs := by
  intro x y rest hsuffix hx hy hrepeats
  cases rest with
  | nil => cases hrepeats
  | cons v rest =>
    obtain ⟨tail, htail, behind, hbehind, hgap⟩ := exists_found head hsegs hsuffix hx hy
    have hrest : ∀ z ∈ v :: rest, Unquoted z := fun z hz =>
      hsegs z (hsuffix.subset (.tail _ (.tail _ hz)))
    have hrecurs :=
      recurs_of_repeats (hrest v (.head _)) (fun z hz => hrest z (.tail _ hz)) hrepeats
    exact h ⟨tail, htail, name, hname, behind, hbehind, _, hgap, other, hother, hne, hrecurs⟩

/-- Segments as the scans for some names leave them, with all names that will come. -/
structure Masked (names done : List (List Char)) (segs : List (List Char)) : Prop where
  unquoted : ∀ x ∈ segs, Unquoted x
  once : ∀ name ∈ names, ∀ other ∈ names, foldText other ≠ foldText name →
    Once (foldText name) (foldText other) segs
  settled : ∀ name ∈ done, name ≠ [] → Settled (foldText name) none segs

variable {done : List (List Char)}

theorem unescaped_foldText (h : ∀ c ∈ name, c ≠ '\\') : ∀ c ∈ foldText name, c ≠ '\\' :=
  List.forall_mem_map.2 fun c hc heq => h c hc ((fold_eq_iff (by decide)).1 heq)

/-- The scan for one more name. -/
theorem Masked.next (hplain : ∀ name ∈ names, ∀ c ∈ name, c ≠ '"' ∧ c ≠ '\\')
    (hstars : ∀ name ∈ names, ∀ other ∈ names, foldText other ≠ foldText name → name ≠ mask.toList)
    (hname : name ∈ names) (hdone : done ⊆ names) (H : Masked names done segs) :
    Masked names (done ++ [name]) (maskSegments [foldText name] none segs) := by
  have hunescaped (name : List Char) (h : name ∈ names) : ∀ c ∈ foldText name, c ≠ '\\' :=
    unescaped_foldText fun c hc => (hplain name h c hc).2
  have hnostars {name other : List Char} (h : name ∈ names) (h' : other ∈ names)
      (hne : foldText other ≠ foldText name) : foldText name ≠ mask.toList :=
    mt eq_stars_of_foldText (hstars name h other h' hne)
  refine ⟨fun x hx => ?_, fun n hn other hother hne => ?_, fun n hn hempty => ?_⟩
  · exact (mem_maskSegments hx).elim (H.unquoted x) fun heq => heq ▸ unquoted_mask
  · exact (H.once n hn other hother hne).maskSegments (hunescaped name hname)
      (hnostars hn hother hne) (hnostars hother hn hne.symm)
  · by_cases hsame : foldText n = foldText name
    · exact hsame ▸ maskSegments_idem
    · have hn : n ∈ done := (List.mem_append.1 hn).resolve_right fun h =>
        hsame (List.mem_singleton.1 h ▸ rfl)
      have hmem := hdone hn
      exact (H.settled n hn hempty).maskSegments (hunescaped n hmem)
        (hnostars hmem hname (Ne.symm hsame)) (hnostars hname hmem hsame) (Ne.symm hsame)
        (H.once name hname n hmem hsame)

/-- A masked text, segment by segment. -/
theorem exists_masked {head : List Char} (hhead : Unquoted head)
    (hplain : ∀ name ∈ names, ∀ c ∈ name, c ≠ '"' ∧ c ≠ '\\')
    (hstars : ∀ name ∈ names, ∀ other ∈ names, foldText other ≠ foldText name → name ≠ mask.toList)
    (H : Masked names [] segs) (hdone : done ⊆ names) :
    ∃ masked, redact (head ++ spell segs) done = head ++ spell masked ∧
      Masked names done masked := by
  induction done using List.reverseRecOn with
  | nil => exact ⟨segs, rfl, H⟩
  | append_singleton done name ih =>
    obtain ⟨hdone, hname⟩ := List.append_subset.1 hdone
    have hname : name ∈ names := hname (.head _)
    obtain ⟨masked, hmasked, H⟩ := ih hdone
    have hlast : redact (head ++ spell segs) (done ++ [name]) =
        redactField (head ++ spell masked) name := by
      rw [← hmasked]
      exact List.foldl_append
    by_cases hempty : name = []
    · refine ⟨masked, by rw [hlast, hempty]; rfl, H.unquoted, H.once, fun n hn hne => ?_⟩
      refine H.settled n ((List.mem_append.1 hn).resolve_right fun h => hne ?_) hne
      rw [List.mem_singleton.1 h, hempty]
    · refine ⟨_, ?_, H.next hplain hstars hname hdone⟩
      rw [hlast, redactField_spell hempty (fun c hc => (hplain name hname c hc).1) hhead H.unquoted]

/-- **Masking again changes nothing**, whatever the text and the names are and in whatever order the
names are taken the second time, unless one of several names is the stars themselves, or a value
behind one name ends in another one that comes again. So a body that was masked is written as it
is. -/
theorem redact_again {fields others : List (List Char)} {text : List Char}
    (hplain : ∀ name ∈ fields, ∀ c ∈ name, c ≠ '"' ∧ c ≠ '\\')
    (hstars : ∀ name ∈ fields, ∀ other ∈ fields,
      foldText other ≠ foldText name → name ≠ mask.toList)
    (hends : ¬Reopens fields text) (hothers : ∀ name ∈ others, name ∈ fields) :
    redact (redact text fields) others = redact text fields ∧
    ∀ r : Registry, (∀ name ∈ r.names, name.toList ∈ fields) →
      r.redact (String.ofList (redact text fields)) = String.ofList (redact text fields) := by
  obtain ⟨head, segs, rfl, hhead, hsegs⟩ := exists_segments text
  have H : Masked fields [] segs :=
    ⟨hsegs, fun _ hname _ hother hne => once_of_not_reopens hsegs hends hname hother hne, nofun⟩
  obtain ⟨masked, hmasked, H⟩ := exists_masked hhead hplain hstars H (List.Subset.refl fields)
  have hfield {name : List Char} (hname : name ∈ fields) :
      redactField (head ++ spell masked) name = head ++ spell masked := by
    by_cases hempty : name = []
    · rw [hempty]
      rfl
    · rw [redactField_spell hempty (fun c hc => (hplain name hname c hc).1) hhead H.unquoted,
        H.settled name hname hempty]
  have hagain {others : List (List Char)} (hothers : ∀ name ∈ others, name ∈ fields) :
      redact (head ++ spell masked) others = head ++ spell masked := by
    induction others with
    | nil => rfl
    | cons name others ih =>
      obtain ⟨hname, hothers⟩ := List.forall_mem_cons.1 hothers
      rw [redact, List.foldl_cons, hfield hname]
      exact ih hothers
  rw [hmasked]
  refine ⟨hagain hothers, fun r hr => ?_⟩
  rw [Registry.redact, String.toList_ofList, hagain (List.forall_mem_map.2 hr)]

/-- A truncated text in which a value behind one name ends in another one. -/
theorem redact_again_truncated :
    let text := "\x7b\"b\":\"\\\"a\"x\"A\" : \"c\\\"d".toList
    let names := ["a".toList, "b".toList]
    (∀ name ∈ names, ∀ c ∈ name, c ≠ '"' ∧ c ≠ '\\') ∧
    (∀ name ∈ names, ∀ other ∈ names, foldText other ≠ foldText name → name ≠ mask.toList) ∧
    ¬Reopens names text ∧
    redact (redact text names) names = "\x7b\"b\":\"******\"x\"A\" : \"******".toList := by
  intro text names
  have hplain : ∀ name ∈ names, ∀ c ∈ name, c ≠ '"' ∧ c ≠ '\\' := by simp [names]
  have hstars : ∀ name ∈ names, ∀ other ∈ names, foldText other ≠ foldText name →
      name ≠ mask.toList := by decide
  have hends : ¬Reopens names text := by decide
  refine ⟨hplain, hstars, hends, ?_⟩
  rw [(redact_again hplain hstars hends fun _ => id).1]
  decide +kernel

/-- Where a value ends in a name that comes again, the second masking finds a key that the first one
took for the end of a name; and where the stars are a name themselves, it finds them. -/
theorem redact_finds_more :
    (let text := "\"b\":\"\\\"a\"a\":\"x\"".toList
     let names := ["a".toList, "b".toList]
     (∀ name ∈ names, ∀ c ∈ name, c ≠ '"' ∧ c ≠ '\\') ∧
     redact text names = "\"b\":\"******\"a\":\"x\"".toList ∧
     redact (redact text names) names = "\"b\":\"******\"a\":\"******\"".toList ∧
     redact (redact text names) names ≠ redact text names) ∧
    (let text := "\"a\":\"x\":\"v\"".toList
     let names := ["******".toList, "a".toList]
     (∀ name ∈ names, ∀ c ∈ name, c ≠ '"' ∧ c ≠ '\\') ∧
     redact (redact text names) names ≠ redact text names) := by
  refine ⟨⟨by simp, by decide +kernel, by decide +kernel, by decide +kernel⟩, by simp,
    by decide +kernel⟩

end Logbook.Trace.Mask
