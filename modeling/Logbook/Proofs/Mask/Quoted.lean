import Logbook.Proofs.Json.Written
import Logbook.Proofs.Mask.Scan

/-!
# The scan through a string

A string of a JSON text is passed over whole. It is an occurrence of a name if its characters, or
those behind its last escaped quote, fold to the name; no occurrence reaches beyond one string,
because a comma or a colon stands between any two.
-/

namespace Logbook.Trace.Mask

open Json.Written Ascii

variable {name key rest : List Char} {s : Quoted} {c : Char}

/-- A name without the characters that end a string, begin an escape or part two strings. -/
def Plain (name : List Char) : Prop := ∀ c ∈ name, c ≠ '"' ∧ c ≠ '\\' ∧ c ≠ ',' ∧ c ≠ ':'

theorem plain_foldText : Plain (foldText name) ↔ Plain name := by
  have h (c : Char) : (fold c ≠ '"' ∧ fold c ≠ '\\' ∧ fold c ≠ ',' ∧ fold c ≠ ':') ↔
      (c ≠ '"' ∧ c ≠ '\\' ∧ c ≠ ',' ∧ c ≠ ':') := by
    simp only [ne_eq, fold_eq_iff (x := '"') (by decide),
      fold_eq_iff (x := '\\') (by decide),
      fold_eq_iff (x := ',') (by decide),
      fold_eq_iff (x := ':') (by decide)]
  simp only [Plain, foldText, List.forall_mem_map, h]

/-- A comma or a colon stands in front of the first quote, if there is a quote. -/
def Parted : List Char → Prop
  | [] => True
  | c :: text => c = ',' ∨ c = ':' ∨ c ≠ '"' ∧ Parted text

theorem afterName?_of_parted (hn : Plain name) (hr : Parted rest) :
    afterName? name rest = none := by
  refine Option.eq_none_iff_forall_ne_some.2 fun behind h => ?_
  obtain ⟨key, rfl, rfl⟩ := afterName?_eq_some_iff.1 h
  rw [plain_foldText] at hn
  clear h
  induction key with
  | nil => simp [Parted] at hr
  | cons c key ih =>
    obtain ⟨-, -, hcomma, hcolon⟩ := hn c List.mem_cons_self
    rcases hr with hc | hc | ⟨-, hr⟩
    · exact hcomma hc
    · exact hcolon hc
    · exact ih hr fun d hd => hn d (List.mem_cons_of_mem _ hd)

/-! ## Quotes and backslashes inside a string -/

theorem ne_of_hex {x : Char} (h : (Digits.digit? 16 x).isSome) : x ≠ '"' ∧ x ≠ '\\' := by
  constructor <;> rintro rfl <;> revert h <;> decide

/-- Characters without quotes and backslashes in front of a quote are the whole string. -/
theorem raw_eq_of_append_eq (hk : ∀ c ∈ key, c ≠ '"' ∧ c ≠ '\\') {behind : List Char}
    (h : s.raw ++ '"' :: rest = key ++ '"' :: behind) : s.raw = key := by
  induction s generalizing key with
  | nil =>
    cases key with
    | nil => rfl
    | cons c key =>
      injection h with hc
      exact ((hk c List.mem_cons_self).1 hc.symm).elim
  | cons p s ih =>
    cases key with
    | nil => cases p <;> simp_all [Piece.text]
    | cons c key =>
      have hc := hk c List.mem_cons_self
      have hkey : ∀ d ∈ key, d ≠ '"' ∧ d ≠ '\\' := fun d hd => hk d (List.mem_cons_of_mem _ hd)
      cases p with
      | plain d hd =>
        injection h with hdc h
        subst hdc
        exact congrArg (d :: ·) (ih hkey h)
      | escaped d hd =>
        injection h with hdc
        exact (hc.2 hdc.symm).elim
      | unicode =>
        injection h with hdc
        exact (hc.2 hdc.symm).elim

theorem afterName?_raw_of_ne (hn : Plain name) (h : foldText s.raw ≠ name) :
    afterName? name (s.raw ++ '"' :: rest) = none := by
  refine Option.eq_none_iff_forall_ne_some.2 fun behind hb => ?_
  obtain ⟨key, he, rfl⟩ := afterName?_eq_some_iff.1 hb
  rw [plain_foldText] at hn
  exact h (congrArg foldText
    (raw_eq_of_append_eq (fun c hc => ⟨(hn c hc).1, (hn c hc).2.1⟩) he))

theorem foldText_raw_ne_quote {text : List Char} : foldText s.raw ≠ '"' :: text := by
  cases s with
  | nil => simp [foldText]
  | cons p s =>
    cases p with
    | plain c hc =>
      intro h
      injection h with h
      exact hc.2.1 ((fold_eq_iff (by decide)).1 h)
    | escaped | unicode =>
      intro h
      injection h with h
      exact absurd ((fold_eq_iff (by decide)).1 h) (by decide)

/-- A quote behind a backslash is an escaped quote, so a string ends in these and a name if its last
escaped quote is followed by the name alone. -/
theorem escapedQuote_suffix_cons {p : Piece} :
    '\\' :: '"' :: name <:+ foldText (Quoted.raw (p :: s)) ↔
      p.text = ['\\', '"'] ∧ foldText s.raw = name ∨ '\\' :: '"' :: name <:+ foldText s.raw := by
  have hback {c : Char} {text : List Char} (hc : c ≠ '\\') :
      '\\' :: '"' :: name <:+ fold c :: text ↔ '\\' :: '"' :: name <:+ text := by
    rw [List.suffix_cons_iff, or_iff_right]
    intro h
    injection h with h
    exact hc ((fold_eq_iff (by decide)).1 h.symm)
  cases p with
  | plain c hc => simpa [Piece.text, foldText] using hback hc.2.2
  | escaped c hc =>
    have hc : '\\' :: '"' :: name <:+ fold c :: foldText s.raw ↔
        '\\' :: '"' :: name <:+ foldText s.raw := by
      rw [List.suffix_cons_iff, or_iff_right]
      intro h
      injection h with _ h
      exact foldText_raw_ne_quote h.symm
    have hfold : '"' = fold c ↔ c = '"' := by rw [eq_comm, fold_eq_iff (by decide)]
    show '\\' :: '"' :: name <:+ '\\' :: fold c :: foldText s.raw ↔ _
    rw [List.suffix_cons_iff, hc]
    simp [Piece.text, eq_comm, hfold]
  | unicode a b c d hex =>
    simp only [List.forall_mem_cons] at hex
    obtain ⟨ha, hb, hc, hd, -⟩ := hex
    show '\\' :: '"' :: name <:+
      '\\' :: fold 'u' :: fold a :: fold b :: fold c :: fold d :: foldText s.raw ↔ _
    rw [List.suffix_cons_iff, hback (by decide), hback (ne_of_hex ha).2, hback (ne_of_hex hb).2,
      hback (ne_of_hex hc).2, hback (ne_of_hex hd).2]
    have hu : ('"' : Char) ≠ fold 'u' := by decide
    simp [Piece.text, hu]

/-! ## A whole string -/

/-- What the scan makes of the text behind a string that is or is not an occurrence. -/
def redactAfter (name rest : List Char) (named : Bool) : List Char :=
  if named then redactBehind name rest else redactName name rest

/-- The scan from within a string. -/
theorem redactName_raw (hn : Plain name) (hr : Parted rest) :
    redactName name (s.raw ++ '"' :: rest) =
      s.raw ++ '"' :: redactAfter name rest ('\\' :: '"' :: name <:+ foldText s.raw) := by
  induction s with
  | nil =>
    have hno : ¬('\\' :: '"' :: name <:+ []) := by simp
    simp [foldText, redactAfter, hno, redactName_quote_of_none (afterName?_of_parted hn hr)]
  | cons p s ih =>
    simp only [escapedQuote_suffix_cons]
    cases p with
    | plain c hc =>
      simp only [Quoted.raw_cons, Piece.text, List.cons_append, List.nil_append,
        redactName_cons_of_ne hc.2.1, ih]
      simp [hc.2.2]
    | escaped c hc =>
      have hslash : ('\\' : Char) ≠ '"' := by decide
      simp only [Quoted.raw_cons, Piece.text, List.cons_append, List.nil_append,
        redactName_cons_of_ne hslash]
      by_cases hquote : c = '"'
      · subst hquote
        by_cases hnamed : foldText (Quoted.raw s) = name
        · rw [redactName_occurrence hnamed]
          simp [hnamed, redactAfter]
        · rw [redactName_quote_of_none (afterName?_raw_of_ne hn hnamed), ih]
          simp [hnamed]
      · rw [redactName_cons_of_ne hquote, ih]
        simp [hquote]
    | unicode a b c d hex =>
      have hplain : ∀ x ∈ ['\\', 'u', a, b, c, d], x ≠ '"' := by
        simp only [List.forall_mem_cons] at hex
        obtain ⟨ha, hb, hc, hd, -⟩ := hex
        simp [(ne_of_hex ha).1, (ne_of_hex hb).1, (ne_of_hex hc).1, (ne_of_hex hd).1]
      rw [Quoted.raw_cons, List.append_assoc, Piece.text, redactName_append hplain, ih]
      simp

/-- Whether a key is an occurrence of the name: it is the name, or it ends in an escaped quote and
the name, whatever the case of the letters. -/
def IsNamed (name : List Char) (key : Quoted) : Prop :=
  foldText key.raw = foldText name ∨ '\\' :: '"' :: foldText name <:+ foldText key.raw

instance : DecidablePred (IsNamed name) := fun _ => inferInstanceAs (Decidable (_ ∨ _))

/-- The scan through a string. -/
theorem redactName_text (hn : Plain name) (hr : Parted rest) :
    redactName (foldText name) (s.text ++ rest) =
      s.text ++ redactAfter (foldText name) rest (IsNamed name s) := by
  have hn := plain_foldText.2 hn
  rw [Quoted.text, List.cons_append, List.append_assoc, List.singleton_append]
  by_cases hnamed : foldText s.raw = foldText name
  · rw [redactName_occurrence hnamed]
    simp [IsNamed, hnamed, redactAfter]
  · rw [redactName_quote_of_none (afterName?_raw_of_ne hn hnamed), redactName_raw hn hr]
    simp [IsNamed, hnamed]

/-- The closing quote of a string is found. -/
theorem fromClosing_raw : fromClosing false (s.raw ++ '"' :: rest) = '"' :: rest := by
  induction s with
  | nil => simp [fromClosing]
  | cons p s ih =>
    cases p with
    | plain c hc => simpa [Piece.text, fromClosing, hc.2.1, hc.2.2] using ih
    | escaped c hc => simpa [Piece.text, fromClosing] using ih
    | unicode a b c d hex =>
      simp only [List.forall_mem_cons] at hex
      obtain ⟨ha, hb, hc, hd, -⟩ := hex
      simpa [Piece.text, fromClosing, ne_of_hex ha, ne_of_hex hb, ne_of_hex hc, ne_of_hex hd]
        using ih

end Logbook.Trace.Mask
