import Mathlib.Data.List.Infix
import Logbook.Proofs.Mask.Segments

/-!
# The order of the names

Names are masked one after the other, and each scan reads the text that the one before has left. As
long as no value runs on into another key (`ValuesEnd`) that is the same as looking for all names at
once (`redactName_maskSegments`), so that only the set of the names counts (`redact_congr`). Where a
masked value is also a key the order of the names does count (`redact_order_counts`).
-/

namespace Logbook.Trace.Mask

open Ascii

variable {name : List Char} {x y : List Char} {rest segs : List (List Char)}
  {names others : List (List Char)} {skip skip' : Option (List Char)}

/-- A name that a scan can find between two quotes, and not in a gap. -/
structure Key (name : List Char) : Prop where
  nonempty : name ≠ []
  unquoted : ∀ c ∈ name, c ≠ '"'
  unescaped : ∀ c ∈ name, c ≠ '\\'
  noGap : isGap false name = false

/-- The characters are looked at one by one, and not for all characters there are. -/
instance : DecidablePred Key := fun name => decidable_of_iff
  (name ≠ [] ∧ name.all (fun c => c ≠ '"' ∧ c ≠ '\\') = true ∧ isGap false name = false) <| by
    simp only [List.all_eq_true, decide_eq_true_eq]
    exact ⟨fun h => ⟨h.1, fun c hc => (h.2.1 c hc).1, fun c hc => (h.2.1 c hc).2, h.2.2⟩,
      fun h => ⟨h.nonempty, fun c hc => ⟨h.unquoted c hc, h.unescaped c hc⟩, h.noGap⟩⟩

/-- What follows the name if the text has it at its beginning, between quotes. -/
def behindKey? (name : List Char) : List Char → Option (List Char)
  | '"' :: text => afterName? name text
  | _ => none

/-- Text from a closing quote on that makes no key of what is closed and begins no other. -/
def Closes (names : List (List Char)) : List Char → Prop
  | [] => True
  | _ :: behind =>
    gap? false behind = none ∧ ∀ name ∈ names, afterName? (foldText name) behind = none

/-- The closing quote of a value behind one of the names is followed neither by a colon and another
string nor by one of the names and a quote. -/
def ValuesEnd (names : List (List Char)) (text : List Char) : Prop :=
  ∀ tail ∈ text.tails, ∀ name ∈ names, ∀ rest ∈ behindKey? (foldText name) tail,
    ∀ found ∈ gap? false rest, Closes names (fromClosing false found.2)

instance : DecidablePred (Closes names)
  | [] => inferInstanceAs (Decidable True)
  | _ :: _ => inferInstanceAs (Decidable (_ ∧ _))

instance : DecidablePred (ValuesEnd names) := fun _ =>
  inferInstanceAs (Decidable (∀ _ ∈ _, ∀ _ ∈ _, ∀ _ ∈ _, ∀ _ ∈ _, _))

/-! ## Segments -/

/-- The first segment is neither a gap nor a name, or no quote follows it. -/
def Stops (names : List (List Char)) : List (List Char) → Prop
  | x :: _ :: _ => isGap false x = false ∧ foldText x ∉ names
  | _ => True

/-- The same of segments, for folded names. -/
def SegmentsEnd (names : List (List Char)) (segs : List (List Char)) : Prop :=
  ∀ ⦃x y v rest⦄, x :: y :: v :: rest <:+ segs → foldText x ∈ names → isGap false y →
    Stops names (afterValue (v :: rest))

theorem Stops.mono (h : Stops names segs) (hsub : others ⊆ names) : Stops others segs := by
  match segs, h with
  | [], _ | [_], _ => trivial
  | x :: y :: segs, h => exact ⟨h.1, fun hx => h.2 (hsub hx)⟩

theorem SegmentsEnd.suffix {segs' : List (List Char)} (h : SegmentsEnd names segs)
    (hs : segs' <:+ segs) : SegmentsEnd names segs' :=
  fun _ _ _ _ hx => h (hx.trans hs)

theorem SegmentsEnd.mono (h : SegmentsEnd names segs) (hsub : others ⊆ names) :
    SegmentsEnd others segs :=
  fun _ _ _ _ hx hname hgap => (h hx (hsub hname) hgap).mono hsub

theorem stops_of_closes (hx : ∀ x ∈ segs, Unquoted x) (h : Closes names (spell segs)) :
    Stops (names.map foldText) segs := by
  match segs, hx, h with
  | [], _, _ | [_], _, _ => trivial
  | x :: y :: segs, hx, h =>
    obtain ⟨hgap, hnames⟩ := h
    rw [spell, gap?_spell (hx x (.head _))] at hgap
    refine ⟨?_, fun hmem => ?_⟩
    · cases hy : isGap false x with
      | false => rfl
      | true => rw [hy, if_pos rfl] at hgap; cases hgap
    · obtain ⟨name, hname, hfold⟩ := List.mem_map.1 hmem
      have hnone := hnames name hname
      rw [spell, afterName?_eq_some_iff.2 ⟨x, rfl, hfold.symm⟩] at hnone
      cases hnone

/-- The value behind a name and a gap, as a scan of the text finds it. -/
theorem exists_found (head : List Char) {v : List Char} (hsegs : ∀ x ∈ segs, Unquoted x)
    (hsuffix : x :: y :: v :: rest <:+ segs) (hx : foldText x = name) (hy : isGap false y) :
    ∃ tail ∈ (head ++ spell segs).tails, ∃ behind ∈ behindKey? name tail,
      gap? false behind = some (y ++ ['"'], v ++ spell rest) := by
  have hy' : Unquoted y := hsegs y (hsuffix.subset (.tail _ (.head _)))
  have htail : spell (x :: y :: v :: rest) ∈ (head ++ spell segs).tails := by
    obtain ⟨before, rfl⟩ := hsuffix
    rw [List.mem_tails, spell_append, ← List.append_assoc]
    exact List.suffix_append ..
  have hbehind : behindKey? name (spell (x :: y :: v :: rest)) = some (y ++ spell (v :: rest)) :=
    afterName?_eq_some_iff.2 ⟨x, rfl, hx⟩
  refine ⟨_, htail, _, hbehind, ?_⟩
  rw [spell, gap?_spell hy', if_pos hy]

theorem segmentsEnd_of_valuesEnd {head : List Char} (hsegs : ∀ x ∈ segs, Unquoted x)
    (h : ValuesEnd names (head ++ spell segs)) : SegmentsEnd (names.map foldText) segs := by
  intro x y v rest hsuffix hx hy
  obtain ⟨name, hname, hfold⟩ := List.mem_map.1 hx
  obtain ⟨tail, htail, behind, hbehind, hgap⟩ := exists_found head hsegs hsuffix hfold.symm hy
  have hrest : ∀ z ∈ v :: rest, Unquoted z := fun z hz =>
    hsegs z (hsuffix.subset (.tail _ (.tail _ hz)))
  have hcloses := h tail htail name hname behind hbehind _ hgap
  rw [fromClosing_spell (fun z hz => hrest z (.tail _ hz)) (hrest v (.head _))] at hcloses
  exact stops_of_closes (fun z hz => hrest z ((afterValue_suffix _).subset hz)) hcloses

/-! ## Keys -/

theorem Key.fold (h : Key name) : Key (foldText name) where
  nonempty := by simpa [foldText] using h.nonempty
  unquoted := unquoted_foldText.2 h.unquoted
  unescaped c hc := by
    obtain ⟨d, hd, rfl⟩ := List.mem_map.1 hc
    exact fun heq => h.unescaped d hd ((fold_eq_iff (by decide)).1 heq)
  noGap := (isGap_foldText false name).trans h.noGap

theorem not_mem_of_isGap (hnames : ∀ name ∈ names, Key name) (hx : isGap false x) :
    foldText x ∉ names := by
  intro hmem
  have hno := (hnames _ hmem).noGap
  rw [isGap_foldText, hx] at hno
  cases hno

theorem escapes_of_unescaped (h : ∀ c ∈ x, c ≠ '\\') : escapes false x = false := by
  induction x with
  | nil => rfl
  | cons c x ih =>
    obtain ⟨hc, hx⟩ := List.forall_mem_cons.1 h
    rw [escapes, decide_eq_false hc]
    exact ih hx

theorem foldText_ne_of_escapes (hname : ∀ c ∈ name, c ≠ '\\') (hx : escapes false x) :
    foldText x ≠ name := by
  rintro rfl
  have hplain : ∀ c ∈ x, c ≠ '\\' := fun c hc heq =>
    hname (fold c) (List.mem_map_of_mem hc) (by rw [heq]; rfl)
  rw [escapes_of_unescaped hplain] at hx
  cases hx

theorem not_mem_of_escapes (hnames : ∀ name ∈ names, Key name) (hx : escapes false x) :
    foldText x ∉ names :=
  fun hmem => foldText_ne_of_escapes (hnames _ hmem).unescaped hx rfl

/-! ## All names at once -/

/-- Nothing is decided by the segment in front of one that is neither a gap nor a name. -/
theorem maskSegments_of_stops (h : Stops names segs) :
    maskSegments names skip (x :: segs) = x :: maskSegments names none segs := by
  match segs, h with
  | [], _ => simp
  | [y], _ => rw [maskSegments_miss (by simp)]; simp
  | y :: z :: segs, h =>
    have hy : nextSkip names none y = none := nextSkip_of_not_mem h.2
    have hy' : nextSkip names (nextSkip names skip x) y = none := nextSkip_of_not_mem h.2
    rw [maskSegments_miss (by simp [h.1]), maskSegments_of_none hy, maskSegments_of_none hy']

theorem Stops.maskSegments (h : Stops names segs) :
    Stops names (maskSegments others skip segs) := by
  match segs, h with
  | [], _ | [_], _ => simp [Stops]
  | x :: y :: segs, h =>
    obtain ⟨more, hmore, hnil⟩ := exists_maskSegments_cons others skip x (y :: segs)
    obtain ⟨z, more, rfl⟩ := List.exists_cons_of_ne_nil (mt hnil.1 (by simp))
    rw [hmore]
    exact h

/-- Behind a value the other names are masked as they are elsewhere. -/
theorem afterValue_maskSegments (hnames : ∀ name ∈ names, Key name)
    (h : Stops names (afterValue segs)) :
    afterValue (maskSegments names skip segs) = maskSegments names none (afterValue segs) := by
  induction segs generalizing skip with
  | nil => simp [afterValue]
  | cons x segs ih =>
    rw [afterValue] at h ⊢
    cases hx : escapes false x with
    | true =>
      rw [hx, if_pos rfl] at h
      rw [maskSegments_of_none (nextSkip_of_not_mem (not_mem_of_escapes hnames hx)), afterValue, hx,
        if_pos rfl, if_pos rfl, ih h]
    | false =>
      rw [hx, if_neg Bool.false_ne_true] at h
      rw [maskSegments_of_stops h, afterValue, hx, if_neg Bool.false_ne_true,
        if_neg Bool.false_ne_true]

/-- What the scan for all names skips, as the scans for one name and for the others skip it. -/
structure Skips (name : List Char) (names : List (List Char)) (skip one more : Option (List Char)) :
    Prop where
  one : skip = some name ↔ one = some name
  more : ∀ n ∈ names, skip = some n ↔ more = some n

theorem Skips.next {one more : Option (List Char)} (H : Skips name names skip one more)
    (x : List Char) : Skips name names (nextSkip (name :: names) skip x) (nextSkip [name] one x)
      (nextSkip names more x) where
  one := by simp [nextSkip_eq_some_iff, H.one]
  more n hn := by simp [nextSkip_eq_some_iff, hn, H.more n hn]

/-- A segment is taken for a name if the one scan or the other takes it for one. -/
theorem Skips.next_ne_none_iff {one more : Option (List Char)}
    (H : Skips name names skip one more) :
    nextSkip (name :: names) skip x ≠ none ↔
      nextSkip [name] one x ≠ none ∨ nextSkip names more x ≠ none := by
  simp only [Option.ne_none_iff_exists', nextSkip_eq_some_iff, List.mem_cons, List.not_mem_nil,
    or_false]
  constructor
  · rintro ⟨n, hx, rfl | hn, hskip⟩
    · exact .inl ⟨n, hx, rfl, mt H.one.2 hskip⟩
    · exact .inr ⟨n, hx, hn, mt (H.more n hn).2 hskip⟩
  · rintro (⟨n, hx, rfl, hskip⟩ | ⟨n, hx, hn, hskip⟩)
    · exact ⟨n, hx, .inl rfl, mt H.one.1 hskip⟩
    · exact ⟨n, hx, .inr hn, mt (H.more n hn).1 hskip⟩

theorem skips_none : Skips name names none none none := ⟨Iff.rfl, fun _ _ => Iff.rfl⟩

/-- A value that is masked for one of the names, and what the scan for one more makes of it. -/
theorem maskSegments_hit_hit {one more : Option (List Char)} (hname : Key name)
    (hnames : ∀ name ∈ names, Key name) (H : Skips name names skip one more)
    (hx : nextSkip (name :: names) skip x ≠ none) (hy : isGap false y) (hsegs : segs ≠ [])
    (hstops : Stops (name :: names) (afterValue segs)) :
    maskSegments [name] one (maskSegments names more (x :: y :: segs)) =
      x :: y :: mask.toList ::
        maskSegments [name] none (maskSegments names none (afterValue segs)) := by
  have hall : ∀ n ∈ name :: names, Key n := List.forall_mem_cons.2 ⟨hname, hnames⟩
  have hyfold := not_mem_of_isGap hall hy
  rw [List.mem_cons, not_or] at hyfold
  have hyname (skip : Option (List Char)) : nextSkip [name] skip y = none := nextSkip_of_ne hyfold.1
  by_cases hmore : nextSkip names more x ≠ none
  · rw [maskSegments_hit hmore hy hsegs]
    have hstops : Stops [name] (maskSegments names none (afterValue segs)) :=
      (hstops.mono (by simp)).maskSegments
    by_cases hone : nextSkip [name] one x ≠ none
    · rw [maskSegments_hit hone hy (by simp)]
      rfl
    · rw [maskSegments_of_none (not_not.1 hone), maskSegments_of_none (hyname _),
        maskSegments_of_stops hstops]
  · have hone := ((H.next_ne_none_iff).1 hx).resolve_right hmore
    obtain ⟨v, segs, rfl⟩ := List.exists_cons_of_ne_nil hsegs
    obtain ⟨tail, htail, -⟩ := exists_maskSegments_cons names none v segs
    rw [maskSegments_of_none (not_not.1 hmore),
      maskSegments_of_none (nextSkip_of_not_mem hyfold.2),
      maskSegments_hit hone hy (by simp [htail]),
      afterValue_maskSegments hnames (hstops.mono (by simp))]

/-- Masking one more name after others is masking all of them at once. -/
theorem maskSegments_maskSegments {one more : Option (List Char)} (hname : Key name)
    (hnames : ∀ name ∈ names, Key name) (h : SegmentsEnd (name :: names) segs)
    (H : Skips name names skip one more) :
    maskSegments [name] one (maskSegments names more segs) =
      maskSegments (name :: names) skip segs := by
  induction hn : segs.length using Nat.strongRecOn generalizing segs skip one more with
  | _ n ih =>
    match segs with
    | [] => simp
    | [x] => simp
    | x :: y :: segs =>
      have ih {segs' : List (List Char)} {skip one more : Option (List Char)}
          (hs : segs' <:+ y :: segs) (H : Skips name names skip one more) :=
        ih _ (hn ▸ Nat.lt_succ_of_le hs.length_le) (h.suffix (hs.trans (List.suffix_cons ..))) H rfl
      by_cases hhit : nextSkip (name :: names) skip x ≠ none ∧ isGap false y ∧ segs ≠ []
      · obtain ⟨hx, hy, hsegs⟩ := hhit
        obtain ⟨v, rest, rfl⟩ := List.exists_cons_of_ne_nil hsegs
        obtain ⟨n, hfold, hmem, -⟩ := (Option.ne_none_iff_exists'.1 hx).imp
          fun _ => nextSkip_eq_some_iff.1
        have hstops := h (List.suffix_refl _) (hfold ▸ hmem) hy
        rw [maskSegments_hit_hit hname hnames H hx hy hsegs hstops, maskSegments_hit hx hy hsegs,
          ih ((afterValue_suffix _).trans (List.suffix_cons ..)) skips_none]
      · have hmore : ¬(nextSkip names more x ≠ none ∧ isGap false y ∧ segs ≠ []) :=
          fun hm => hhit ⟨H.next_ne_none_iff.2 (.inr hm.1), hm.2⟩
        obtain ⟨tail, htail, hnil⟩ := exists_maskSegments_cons names (nextSkip names more x) y segs
        have hone : ¬(nextSkip [name] one x ≠ none ∧ isGap false y ∧ tail ≠ []) :=
          fun hm => hhit ⟨H.next_ne_none_iff.2 (.inl hm.1), hm.2.1, mt hnil.2 hm.2.2⟩
        rw [maskSegments_miss hhit, maskSegments_miss hmore, htail, maskSegments_miss hone, ← htail,
          ih (List.suffix_refl _) (H.next x)]

theorem maskSegments_congr (h : ∀ name, name ∈ others ↔ name ∈ names) :
    maskSegments others skip segs = maskSegments names skip segs := by
  have hnext (skip : Option (List Char)) (x : List Char) :
      nextSkip others skip x = nextSkip names skip x := by simp only [nextSkip, h]
  fun_induction maskSegments names skip segs with
  | case1 skip x y segs hhit ih => rw [maskSegments, hnext, if_pos hhit, ih]
  | case2 skip x y segs hmiss ih => rw [maskSegments, hnext, if_neg hmiss, ih]
  | case3 skip segs hshort => rw [maskSegments.eq_2 others skip segs hshort]

theorem maskSegments_no_names : maskSegments [] skip segs = segs := by
  have hnone (skip : Option (List Char)) (x : List Char) : nextSkip [] skip x = none :=
    nextSkip_of_not_mem List.not_mem_nil
  induction segs generalizing skip with
  | nil => simp
  | cons x segs ih => rw [maskSegments_of_none (hnone skip x), ih]

/-! ## Texts -/

theorem redactField_spell {head : List Char} (hempty : name ≠ []) (hname : Unquoted name)
    (hhead : Unquoted head) (hsegs : ∀ x ∈ segs, Unquoted x) :
    redactField (head ++ spell segs) name =
      head ++ spell (maskSegments [foldText name] none segs) := by
  have hfield : ¬name.isEmpty := by simpa using hempty
  rw [redactField, if_neg hfield, redactName_append hhead,
    redactName_spell (unquoted_foldText.2 hname) hsegs]

/-- A list of names masks the segments of a text as all names at once do. -/
theorem redact_spell {head : List Char} (hnames : ∀ name ∈ names, Key name) (hhead : Unquoted head)
    (hsegs : ∀ x ∈ segs, Unquoted x) (h : SegmentsEnd (names.map foldText) segs) :
    redact (head ++ spell segs) names =
      head ++ spell (maskSegments (names.map foldText) none segs) := by
  induction names using List.reverseRecOn with
  | nil => rw [List.map_nil, maskSegments_no_names]; rfl
  | append_singleton names name ih =>
    have hkeys : ∀ n ∈ names, Key n := fun n hn => hnames n (List.mem_append_left _ hn)
    have hname : Key name := hnames name (by simp)
    have hfolded : ∀ n ∈ names.map foldText, Key n :=
      List.forall_mem_map.2 fun n hn => (hkeys n hn).fold
    have hsame (n : List Char) :
        n ∈ (names ++ [name]).map foldText ↔ n ∈ foldText name :: names.map foldText := by
      simp [or_comm]
    have hmasked : ∀ x ∈ maskSegments (names.map foldText) none segs, Unquoted x := fun x hx =>
      (mem_maskSegments hx).elim (hsegs x) fun heq => heq ▸ unquoted_mask
    calc redact (head ++ spell segs) (names ++ [name])
        = redactField (redact (head ++ spell segs) names) name := List.foldl_append
      _ = redactField (head ++ spell (maskSegments (names.map foldText) none segs)) name := by
        rw [ih hkeys (h.mono (by simp))]
      _ = head ++ spell (maskSegments (foldText name :: names.map foldText) none segs) := by
        rw [redactField_spell hname.nonempty hname.unquoted hhead hmasked,
          maskSegments_maskSegments hname.fold hfolded
            (h.mono fun n hn => (hsame n).2 hn) skips_none]
      _ = head ++ spell (maskSegments ((names ++ [name]).map foldText) none segs) := by
        rw [maskSegments_congr hsame]

/-- Two lists of the same names mask a text alike, if its values end. -/
theorem redact_eq_of_mem_iff {text : List Char} (hnames : ∀ name ∈ names, Key name)
    (hends : ValuesEnd names text) (hsame : ∀ name, name ∈ others ↔ name ∈ names) :
    redact text others = redact text names := by
  obtain ⟨head, segs, rfl, hhead, hsegs⟩ := exists_segments text
  have h := segmentsEnd_of_valuesEnd hsegs hends
  have hfolded (n : List Char) : n ∈ others.map foldText ↔ n ∈ names.map foldText := by
    simp only [List.mem_map, hsame]
  rw [redact_spell (fun n hn => hnames n ((hsame n).1 hn)) hhead hsegs
      (h.mono fun n hn => (hfolded n).1 hn),
    redact_spell hnames hhead hsegs h, maskSegments_congr hfolded]

/-- The registered names count as a set where the values of a body end. -/
theorem Registry.redact_eq {masked other : Registry} {body : String}
    (hsame : ∀ name, name ∈ other.names ↔ name ∈ masked.names)
    (hnames : ∀ name ∈ masked.names, Key name.toList)
    (hends : ValuesEnd (masked.names.map String.toList) body.toList) :
    other.redact body = masked.redact body := by
  rw [Registry.redact, Registry.redact, redact_eq_of_mem_iff (List.forall_mem_map.2 hnames) hends]
  simp only [List.mem_map, hsame, implies_true]

/-- **The order of the names does not count** as long as no value behind one of them runs on into
another key, whatever else the text is. So a body is masked for the registered names in whatever
order they are taken. -/
theorem redact_congr {text : List Char} (hnames : ∀ name ∈ names, Key name)
    (hends : ValuesEnd names text) (hsame : ∀ name, name ∈ others ↔ name ∈ names) :
    redact text others = redact text names ∧
    ∀ r : Registry, (∀ name, name ∈ r.names.map String.toList ↔ name ∈ names) →
      r.redact (String.ofList text) = String.ofList (redact text others) := by
  have hset := redact_eq_of_mem_iff hnames hends hsame
  refine ⟨hset, fun r hr => ?_⟩
  rw [Registry.redact, String.toList_ofList, redact_eq_of_mem_iff hnames hends hr, hset]

/-- A truncated text in which a masked value is one of the names, with the names in both orders. -/
theorem redact_congr_truncated :
    let text := "\x7b\"a\":\"b\",\"B\" : \"c\\\"d".toList
    let names := ["a".toList, "b".toList]
    (∀ name ∈ names, Key name) ∧ ValuesEnd names text ∧
    (∀ name, name ∈ names.reverse ↔ name ∈ names) ∧
    redact text names.reverse = "\x7b\"a\":\"******\",\"B\" : \"******".toList := by
  intro text names
  have hnames : ∀ name ∈ names, Key name := by decide
  have hends : ValuesEnd names text := by decide
  have hsame : ∀ name, name ∈ names.reverse ↔ name ∈ names := fun _ => List.mem_reverse
  refine ⟨hnames, hends, hsame, ?_⟩
  rw [(redact_congr hnames hends hsame).1]
  decide +kernel

/-- Where a masked value is closed in front of a colon and another string, it is a key too, and the
order counts. -/
theorem redact_order_counts :
    let text := "\"a\":\"b\":\"c\"".toList
    let names := ["a".toList, "b".toList]
    (∀ name ∈ names, Key name) ∧ names.reverse.Perm names ∧
    redact text names = "\"a\":\"******\":\"c\"".toList ∧
    redact text names.reverse = "\"a\":\"******\":\"******\"".toList ∧
    redact text names.reverse ≠ redact text names := by
  intro text names
  have hnames : ∀ name ∈ names, Key name := by decide
  have hforth : redact text names = "\"a\":\"******\":\"c\"".toList := by decide +kernel
  have hback : redact text names.reverse = "\"a\":\"******\":\"******\"".toList := by
    decide +kernel
  refine ⟨hnames, List.reverse_perm names, hforth, hback, ?_⟩
  rw [hforth, hback]
  decide

end Logbook.Trace.Mask
