import Mathlib.Data.Bool.AllAny
import Mathlib.Data.List.Induction
import Logbook.Trace.TypePath

/-! The grammar of the paths of types, and the name of a unit as it is taken from one
(`actionName_text`). The path is cut at its first bracket, so that of its segments only those up to
the first one with arguments are seen, and none behind a qualified self. -/

namespace Logbook.Trace.TypePath

/-! ## Paths of types -/

/-- Text whose angle brackets match, where an arrow ends in no bracket. -/
inductive Balanced : List Char → Prop where
  | nil : Balanced []
  | plain {c : Char} {text : List Char} : c ≠ '<' → c ≠ '>' → Balanced text → Balanced (c :: text)
  | arrow {text : List Char} : Balanced text → Balanced ('-' :: '>' :: text)
  | brackets {inner text : List Char} :
    Balanced inner → Balanced text → Balanced ('<' :: inner ++ '>' :: text)

theorem Balanced.of_plain {text : List Char} (h : ∀ c ∈ text, c ≠ '<' ∧ c ≠ '>') :
    Balanced text := by
  induction text with
  | nil => exact .nil
  | cons c text ih =>
    obtain ⟨hopen, hclose⟩ := h c (.head _)
    exact .plain hopen hclose (ih fun d hd => h d (.tail _ hd))

/-- What stands between angle brackets, such as further paths. -/
structure Enclosed where
  text : List Char
  balanced : Balanced text

/-- An identifier has none of the characters with a meaning in paths. -/
structure Identifier where
  text : List Char
  ne_nil : text ≠ []
  plain : ∀ c ∈ text, c ∉ [':', '<', '>', '\x7b', '\x7d']

inductive Segment where
  | named (identifier : Identifier) (args : Option Enclosed)
  | closure

namespace Segment

def identifier? : Segment → Option Identifier
  | named identifier _ => some identifier
  | closure => none

def args? : Segment → Option Enclosed
  | named _ args => args
  | closure => none

def text : Segment → List Char
  | named identifier none => identifier.text
  | named identifier (some args) => identifier.text ++ '<' :: args.text ++ ['>']
  | closure => "\x7b\x7bclosure\x7d\x7d".toList

theorem text_named (identifier : Identifier) : (named identifier none).text = identifier.text := rfl

theorem text_args (identifier : Identifier) (args : Enclosed) :
    (named identifier (some args)).text =
      (named identifier none).text ++ '<' :: (args.text ++ ['>']) :=
  List.append_assoc ..

end Segment

def separator : List Char := [':', ':']

/-- A path has a name at least; a qualified self consists of a type and a trait. -/
structure Path where
  qualifiedSelf : Option (Enclosed × Enclosed)
  segments : List Segment
  named : ∃ segment ∈ segments, segment.identifier?.isSome

def selfText (qualifiedSelf : Enclosed × Enclosed) : List Char :=
  '<' :: qualifiedSelf.1.text ++ " as ".toList ++ qualifiedSelf.2.text ++ ['>']

def Path.text (path : Path) : List Char :=
  separator.intercalate (path.qualifiedSelf.toList.map selfText ++ path.segments.map Segment.text)

/-- The identifier of the last segment that is no marker of a closure. -/
def lastName? (segments : List Segment) : Option Identifier :=
  segments.reverse.findSome? Segment.identifier?

def lastName (segments : List Segment) : List Char :=
  ((lastName? segments).map Identifier.text).getD []

/-- The segments up to the first one with arguments, without these. -/
def shown : List Segment → List Segment
  | [] => []
  | .named identifier (some _) :: _ => [.named identifier none]
  | segment :: segments => segment :: shown segments

/-- Arguments stand at the last name only. -/
def ArgsAtLast (segments : List Segment) : Prop :=
  ∀ front identifier args back, segments = front ++ .named identifier (some args) :: back →
    ∀ segment ∈ back, segment = .closure

/-! ## Parts between separators -/

section Parts

variable {part path : List Char} {parts : List (List Char)}

/-- Parts behind each other, with a separator in front of the first one as well. -/
theorem separator_append_intercalate (hne : parts ≠ []) :
    separator ++ separator.intercalate parts = parts.flatMap (separator ++ ·) := by
  induction parts with
  | nil => exact absurd rfl hne
  | cons part parts ih =>
    cases parts with
    | nil => rw [List.intercalate_singleton, List.flatMap_singleton]
    | cons next parts =>
      rw [List.intercalate_cons_cons, List.append_assoc, ih (List.cons_ne_nil next parts),
        List.flatMap_cons (x := part), List.append_assoc]

theorem exists_intercalate_cons (part : List Char) (parts : List (List Char)) :
    ∃ rest, separator.intercalate (part :: parts) = part ++ rest := by
  refine ⟨parts.flatMap (separator ++ ·), (List.append_right_inj separator).mp ?_⟩
  rw [separator_append_intercalate (List.cons_ne_nil part parts), List.flatMap_cons,
    List.append_assoc]

theorem intercalate_concat (hne : parts ≠ []) :
    separator.intercalate (parts ++ [part]) = separator.intercalate parts ++ separator ++ part := by
  refine (List.append_right_inj separator).mp ?_
  rw [separator_append_intercalate (List.concat_ne_nil part parts), List.flatMap_append,
    List.flatMap_singleton, ← separator_append_intercalate hne, List.append_assoc,
    List.append_assoc]

theorem segments_eq_singleton (h : ':' ∉ part) : segments part = [part] := by
  induction part with
  | nil => rfl
  | cons c part ih =>
    have hcolon : c ≠ ':' := fun heq => h (heq ▸ .head _)
    rw [segments.eq_3 c part fun _ heq _ => hcolon heq, ih fun hmem => h (.tail _ hmem)]

theorem segments_append (h : ':' ∉ part) :
    segments (part ++ separator ++ path) = part :: segments path := by
  induction part with
  | nil => rfl
  | cons c part ih =>
    have hcolon : c ≠ ':' := fun heq => h (heq ▸ .head _)
    rw [List.cons_append, List.cons_append, segments.eq_3 c _ fun _ heq _ => hcolon heq,
      ih fun hmem => h (.tail _ hmem)]

/-- The part behind the last separator comes first. -/
theorem segmentsFromEnd_append (h : ':' ∉ part) :
    segmentsFromEnd (path ++ separator ++ part) = part :: segmentsFromEnd path := by
  have hreverse : (path ++ separator ++ part).reverse =
      part.reverse ++ separator ++ path.reverse := by
    rw [List.reverse_append, List.reverse_append, ← List.append_assoc]
    rfl
  rw [segmentsFromEnd, hreverse, segments_append (List.mem_reverse.not.mpr h), List.map_cons,
    List.reverse_reverse, segmentsFromEnd]

theorem segmentsFromEnd_intercalate (h : ∀ part ∈ parts, ':' ∉ part) (hne : parts ≠ []) :
    segmentsFromEnd (separator.intercalate parts) = parts.reverse := by
  -- from the end, as the path is split from there
  induction parts using List.reverseRecOn with
  | nil => exact absurd rfl hne
  | append_singleton parts part ih =>
    have hpart := h part List.mem_concat_self
    rw [List.reverse_concat]
    by_cases hparts : parts = []
    · subst hparts
      rw [List.nil_append, List.intercalate_singleton, segmentsFromEnd,
        segments_eq_singleton (List.mem_reverse.not.mpr hpart), List.map_singleton,
        List.reverse_reverse, List.reverse_nil]
    · rw [intercalate_concat hparts, segmentsFromEnd_append hpart,
        ih (fun part hmem => h part (List.mem_append_left _ hmem)) hparts]

end Parts

/-! ## Segments that are shown -/

variable {path : Path} {segment : Segment} {segs : List Segment} {identifier : Identifier}
  {c d : Char}

theorem Identifier.ne_of_mem (hc : c ∈ identifier.text)
    (hd : d ∈ [':', '<', '>', '\x7b', '\x7d']) : c ≠ d := by
  rintro rfl
  exact identifier.plain c hc hd

/-- Without arguments a segment is cut nowhere and holds no separator. -/
theorem Segment.ne_of_mem (h : segment.args? = none) (hc : c ∈ segment.text)
    (hd : d ∈ [':', '<']) : c ≠ d := by
  cases segment with
  | named identifier args =>
    obtain rfl : args = none := h
    exact identifier.ne_of_mem hc (List.mem_of_mem_take (i := 2) hd)
  | closure =>
    have hplain : ∀ c ∈ closure.text, c ∉ [':', '<'] := List.all_iff_forall_prop.mp rfl
    rintro rfl
    exact hplain c hc hd

theorem args?_eq_none (h : ∀ identifier args, segment = .named identifier (some args) → False) :
    segment.args? = none := by
  cases segment with
  | named identifier args =>
    cases args with
    | none => rfl
    | some args => exact (h identifier args rfl).elim
  | closure => rfl

theorem args?_of_mem_shown (h : segment ∈ shown segs) : segment.args? = none := by
  fun_induction shown segs with
  | case1 => cases h
  | case2 identifier =>
    obtain rfl := List.mem_singleton.mp h
    rfl
  | case3 first segs hplain ih =>
    obtain rfl | h := List.mem_cons.mp h
    · exact args?_eq_none hplain
    · exact ih h

theorem shown_ne_nil (h : segs ≠ []) : shown segs ≠ [] := by
  fun_cases shown segs with
  | case1 => exact h
  | case2 => nofun
  | case3 => nofun

/-- A name is shown, as the first arguments are behind one. -/
theorem exists_named_shown (h : ∃ segment ∈ segs, segment.identifier?.isSome) :
    ∃ segment ∈ shown segs, segment.identifier?.isSome := by
  fun_induction shown segs with
  | case1 => exact h
  | case2 identifier => exact ⟨_, .head _, rfl⟩
  | case3 first segs _ ih =>
    obtain ⟨segment, hmem, hname⟩ := h
    obtain rfl | hmem := List.mem_cons.mp hmem
    · exact ⟨segment, .head _, hname⟩
    · obtain ⟨segment, hmem, hname⟩ := ih ⟨segment, hmem, hname⟩
      exact ⟨segment, .tail _ hmem, hname⟩

/-- A segment without arguments stays when the text is cut. -/
theorem takeWhile_append (h : segment.args? = none) (text : List Char) :
    (separator ++ segment.text ++ text).takeWhile (· ≠ '<') =
      separator ++ segment.text ++ text.takeWhile (· ≠ '<') := by
  refine List.takeWhile_append_of_pos fun c hc => decide_eq_true ?_
  obtain hc | hc := List.mem_append.mp hc
  · have hplain : ∀ c ∈ separator, c ≠ '<' := List.all_iff_forall_prop.mp rfl
    exact hplain c hc
  · exact segment.ne_of_mem h hc (by decide)

theorem takeWhile_texts (segs : List Segment) :
    ((segs.map Segment.text).flatMap (separator ++ ·)).takeWhile (· ≠ '<') =
      ((shown segs).map Segment.text).flatMap (separator ++ ·) := by
  fun_induction shown segs with
  | case1 => rfl
  | case2 identifier args segs =>
    rw [List.map_cons, List.flatMap_cons, Segment.text_args, List.append_assoc, List.append_assoc,
      ← List.append_assoc separator, takeWhile_append rfl, List.cons_append,
      List.takeWhile_cons_of_neg (by decide), List.append_nil, List.map_singleton,
      List.flatMap_singleton]
  | case3 segment segs hplain ih =>
    rw [List.map_cons, List.flatMap_cons, takeWhile_append (args?_eq_none hplain), ih,
      List.map_cons, List.flatMap_cons]

/-- The text in front of the first bracket is that of the segments that are shown. -/
theorem takeWhile_intercalate (h : segs ≠ []) :
    (separator.intercalate (segs.map Segment.text)).takeWhile (· ≠ '<') =
      separator.intercalate ((shown segs).map Segment.text) := by
  have hseparator (text : List Char) :
      (separator ++ text).takeWhile (· ≠ '<') = separator ++ text.takeWhile (· ≠ '<') :=
    List.takeWhile_append_of_pos (List.all_eq_true.mp rfl)
  refine (List.append_right_inj separator).mp ?_
  rw [← hseparator, separator_append_intercalate (List.map_eq_nil_iff.not.mpr h),
    separator_append_intercalate (List.map_eq_nil_iff.not.mpr (shown_ne_nil h)), takeWhile_texts]

/-! ## Names -/

/-- What an identifier starts with is no marker. -/
theorem isMarker_identifier (identifier : Identifier) : isMarker identifier.text = false := by
  obtain ⟨c, rest, heq⟩ := List.exists_cons_of_ne_nil identifier.ne_nil
  have hc : c ∈ identifier.text := heq ▸ List.mem_cons_self
  have hbrace : c ≠ '\x7b' := identifier.ne_of_mem hc (by decide)
  rw [heq, isMarker, List.isPrefixOf_cons_cons, beq_false_of_ne hbrace.symm, Bool.false_and]

theorem find?_texts (h : ∀ segment ∈ segs, segment.args? = none) :
    (segs.map Segment.text).find? (fun text => !text.isEmpty && !isMarker text) =
      (segs.findSome? Segment.identifier?).map Identifier.text := by
  induction segs with
  | nil => rfl
  | cons segment segs ih =>
    have hrest := ih fun segment hmem => h segment (.tail _ hmem)
    rw [List.map_cons]
    cases segment with
    | named identifier args =>
      obtain rfl : args = none := h _ (.head _)
      rw [List.find?_cons_of_pos]
      · rfl
      · rw [Segment.text_named, isMarker_identifier,
          List.isEmpty_eq_false_iff.mpr identifier.ne_nil]
        rfl
    | closure => rw [List.find?_cons_of_neg (by decide), hrest]; rfl

theorem lastName?_isSome (h : ∃ segment ∈ segs, segment.identifier?.isSome) :
    (lastName? segs).isSome := by
  obtain ⟨segment, hmem, hname⟩ := h
  exact List.findSome?_isSome_iff.mpr ⟨segment, List.mem_reverse.mpr hmem, hname⟩

theorem lastName_ne_nil (h : ∃ segment ∈ segs, segment.identifier?.isSome) :
    lastName segs ≠ [] := by
  obtain ⟨identifier, hlast⟩ := Option.isSome_iff_exists.mp (lastName?_isSome h)
  rw [lastName, hlast]
  exact identifier.ne_nil

theorem lastName?_cons (segment : Segment) (segs : List Segment) :
    lastName? (segment :: segs) = (lastName? segs).or segment.identifier? := by
  rw [lastName?, List.reverse_cons, List.findSome?_append, List.findSome?_singleton]
  rfl

theorem lastName?_closures (h : ∀ segment ∈ segs, segment = .closure) : lastName? segs = none := by
  refine List.findSome?_eq_none_iff.mpr fun segment hmem => ?_
  rw [h segment (List.mem_reverse.mp hmem)]
  rfl

/-- Where arguments stand at the last name only, this one is shown. -/
theorem lastName?_shown (h : ArgsAtLast segs) : lastName? (shown segs) = lastName? segs := by
  fun_induction shown segs with
  | case1 => rfl
  | case2 identifier args back =>
    rw [lastName?_cons _ back, lastName?_closures (h [] identifier args back rfl)]
    rfl
  | case3 segment segs _ ih =>
    have hrest : ArgsAtLast segs := fun front identifier args back heq =>
      h (segment :: front) identifier args back (congrArg (segment :: ·) heq)
    rw [lastName?_cons, lastName?_cons, ih hrest]

/-- Without a qualified self, the last name that is shown is taken. -/
theorem actionName_segments (h : ∃ segment ∈ segs, segment.identifier?.isSome) :
    actionName (separator.intercalate (segs.map Segment.text)) = lastName (shown segs) := by
  have hne : segs ≠ [] := by
    rintro rfl
    obtain ⟨segment, hmem, -⟩ := h
    cases hmem
  have hplain : ∀ segment ∈ shown segs, segment.args? = none := fun _ => args?_of_mem_shown
  have hcolon : ∀ part ∈ (shown segs).map Segment.text, ':' ∉ part := by
    intro part hpart hmem
    obtain ⟨segment, hsegment, rfl⟩ := List.mem_map.mp hpart
    exact segment.ne_of_mem (hplain segment hsegment) hmem (by decide) rfl
  obtain ⟨identifier, hlast⟩ :=
    Option.isSome_iff_exists.mp (lastName?_isSome (exists_named_shown h))
  rw [actionName, takeWhile_intercalate hne, segmentsFromEnd_intercalate hcolon
    (List.map_eq_nil_iff.not.mpr (shown_ne_nil hne)), ← List.map_reverse,
    find?_texts fun segment hmem => hplain segment (List.mem_reverse.mp hmem), ← lastName?,
    lastName, hlast]
  rfl

/-- A qualified self has a bracket in front of everything. -/
theorem actionName_qualified {qualifiedSelf : Enclosed × Enclosed}
    (h : path.qualifiedSelf = some qualifiedSelf) : actionName path.text = [] := by
  obtain ⟨rest, hrest⟩ : ∃ rest, path.text = selfText qualifiedSelf ++ rest := by
    rw [Path.text, h]
    exact exists_intercalate_cons _ _
  rw [hrest]
  rfl

/-- **Names from type paths.** The name is the last one among the segments up to the first one with
arguments. It is empty exactly for a path with a qualified self. It is the last name of the path if
there is no such self and arguments stand at that name only. -/
theorem actionName_text (path : Path) :
    actionName path.text =
      (if path.qualifiedSelf.isSome then [] else lastName (shown path.segments)) ∧
    (actionName path.text = [] ↔ path.qualifiedSelf.isSome) ∧
    (path.qualifiedSelf = none → ArgsAtLast path.segments →
      actionName path.text = lastName path.segments) := by
  cases hself : path.qualifiedSelf with
  | some qualifiedSelf =>
    have hname := actionName_qualified hself
    exact ⟨hname, iff_of_true hname rfl, nofun⟩
  | none =>
    have hname : actionName path.text = lastName (shown path.segments) := by
      rw [Path.text, hself]
      exact actionName_segments path.named
    refine ⟨hname, iff_of_false ?_ nofun, fun _ hargs => ?_⟩
    · rw [hname]
      exact lastName_ne_nil (exists_named_shown path.named)
    · rw [hname, lastName, lastName?_shown hargs, lastName]

def runName : Identifier := ⟨"run".toList, by decide, List.all_iff_forall_prop.mp rfl⟩

/-- A closure in a function of a generic type. -/
def genericRun : Path where
  qualifiedSelf := none
  segments := [.named ⟨"app".toList, by decide, List.all_iff_forall_prop.mp rfl⟩ none,
    .named ⟨"Wrapper".toList, by decide, List.all_iff_forall_prop.mp rfl⟩
      (some ⟨"app::Inner".toList, .of_plain (List.all_iff_forall_prop.mp rfl)⟩),
    .named runName none, .closure]
  named := ⟨_, .head _, rfl⟩

/-- A closure in a function that implements a trait. -/
def traitRun : Path where
  qualifiedSelf := some (⟨"app::A".toList, .of_plain (List.all_iff_forall_prop.mp rfl)⟩,
    ⟨"app::B".toList, .of_plain (List.all_iff_forall_prop.mp rfl)⟩)
  segments := [.named runName none, .closure]
  named := ⟨_, .head _, rfl⟩

/-- Arguments in front of the last name, or a qualified self, hide the function that a closure is
in. -/
theorem actionName_ne_lastName :
    genericRun.text = "app::Wrapper<app::Inner>::run::\x7b\x7bclosure\x7d\x7d".toList ∧
      lastName genericRun.segments = "run".toList ∧
      actionName genericRun.text = "Wrapper".toList ∧
    traitRun.text = "<app::A as app::B>::run::\x7b\x7bclosure\x7d\x7d".toList ∧
      lastName traitRun.segments = "run".toList ∧ actionName traitRun.text = [] := by
  decide

end Logbook.Trace.TypePath
