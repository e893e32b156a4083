import Logbook.Proofs.Json.ReadBack
import Logbook.Proofs.Record.OneLine

/-!
# What a line tells

A record's line is one JSON object with different member names. Its contents can be read from the
object (`ofJson?_toJson`) and the object from the line, so that nothing that a record holds can pass
for something else (`contents_eq_of_line`).
-/

namespace Logbook.Record

/-- What a line tells about a record. -/
structure Contents where
  id : String
  action : String
  actionType : String
  outcome : Outcome
  /-- Nanoseconds. -/
  elapsed : Nat
  refId : Option String
  client : Option String
  errorCode : Option String
  errorMessage : Option String
  stackTrace : Option String
  requestBody : Option String
  responseBody : Option String
  context : List (String × List String)
  /-- Stats; `none` if not finite. -/
  stats : List (String × Option Float)

/-- A text that is set and not empty. -/
def present (text : Option String) : Option String := text.filter fun text => !text.isEmpty

/-- What the line of a record is to tell. -/
def contents (masked : Trace.Mask.Registry) (r : Record) : Contents where
  id := r.id
  action := r.action
  actionType := r.actionType
  outcome := r.outcome
  elapsed := r.elapsed.getD 0
  refId := present r.refId
  client := present r.client
  errorCode := present r.errorCode
  errorMessage := present r.errorMessage
  stackTrace := present r.stackTrace
  requestBody := r.requestBody.map masked.redact
  responseBody := r.responseBody.map masked.redact
  context := r.scope.context.entries
  stats := r.scope.stats.entries.map fun (key, x) =>
    (key, if Decimal.isFinite x then some x else none)

namespace Contents

/-! ## Reading -/

def text? (key : String) (v : Json) : Option String := (v.member? key).bind Json.string?

/-- A text that may be left out. -/
def optional? (key : String) (v : Json) : Option (Option String) :=
  match v.member? key with
  | none => some none
  | some value => value.string?.map some

def natural? : Json → Option Nat
  | .integer n => some n.toNat
  | _ => none

/-- The values of a context key: a text is a list of one. -/
def values? : Json → Option (List String)
  | .string text => some [text]
  | .array items => items.mapM Json.string?
  | _ => none

def stat? : Json → Option (Option Float)
  | .real x => some (some x)
  | .null => some none
  | _ => none

/-- What stands behind a beginning. -/
def behind? (beginning text : String) : Option String :=
  (text.toList.dropPrefix? beginning.toList).map String.ofList

/-- The members whose names have a beginning, without it. -/
def grouped (beginning : String) : Json → List (String × Json)
  | .object members => members.filterMap fun m => (behind? beginning m.1).map (·, m.2)
  | _ => []

def group? {α : Type} (beginning : String) (f : Json → Option α) (v : Json) :
    Option (List (String × α)) :=
  (grouped beginning v).mapM fun m => (f m.2).map (m.1, ·)

def ofJson? (v : Json) : Option Contents := do
  return {
    id := ← text? "id" v
    action := ← text? "action" v
    actionType := ← text? "action_type" v
    outcome := Outcome.ofName (← text? "result" v)
    elapsed := ← (v.member? "elapsed").bind natural?
    refId := ← optional? "ref_id" v
    client := ← optional? "client" v
    errorCode := ← optional? "error_code" v
    errorMessage := ← optional? "error_message" v
    stackTrace := ← optional? "stack_trace" v
    requestBody := ← optional? "request_body" v
    responseBody := ← optional? "response_body" v
    context := ← group? "context." values? v
    stats := ← group? "stat." stat? v }

end Contents

open Contents

variable {masked : Trace.Mask.Registry} {r : Record} {key : String} {value : Option Json}

/-! ## Members -/

/-- The members with names of their own, in order; what is left out has no value. -/
def fields (masked : Trace.Mask.Registry) (r : Record) : List (String × Option Json) :=
  [("id", some (.string r.id)), ("date", some (.string (Date.text r.begun.millis))),
    ("action", some (.string r.action)), ("action_type", some (.string r.actionType)),
    ("result", some (.string r.outcome.name)), ("ref_id", (present r.refId).map .string),
    ("client", (present r.client).map .string), ("error_code", (present r.errorCode).map .string),
    ("error_message", (present r.errorMessage).map .string),
    ("elapsed", some (.integer (r.elapsed.getD 0))),
    ("request_body", (r.requestBody.map masked.redact).map .string),
    ("response_body", (r.responseBody.map masked.redact).map .string),
    ("stack_trace", (present r.stackTrace).map .string)]

def fieldNames : List String :=
  ["id", "date", "action", "action_type", "result", "ref_id", "client", "error_code",
    "error_message", "elapsed", "request_body", "response_body", "stack_trace"]

def contextMembers (r : Record) : List (String × Json) :=
  r.scope.context.entries.map fun (key, values) => ("context." ++ key, contextValue values)

def statMembers (r : Record) : List (String × Json) :=
  r.scope.stats.entries.map fun (key, value) => ("stat." ++ key, statValue value)

/-- A field as a member, if it has a value. -/
def member? (field : String × Option Json) : Option (String × Json) := field.2.map (field.1, ·)

theorem filterMap_member?_cons (field : String × Option Json)
    (fields : List (String × Option Json)) :
    (field :: fields).filterMap member? = (member? field).toList ++ fields.filterMap member? := by
  rw [List.filterMap_cons]
  cases member? field <;> rfl

theorem optionalMember_eq (key : String) (text : Option String) :
    optionalMember key text = (member? (key, (present text).map .string)).toList := by
  cases text with
  | none => rfl
  | some text =>
    rw [optionalMember, present, Option.filter_some]
    cases text.isEmpty <;> rfl

theorem bodyMember_eq (masked : Trace.Mask.Registry) (key : String) (body : Option String) :
    bodyMember masked key body = (member? (key, (body.map masked.redact).map .string)).toList := by
  cases body <;> rfl

theorem members_eq (masked : Trace.Mask.Registry) (r : Record) : r.members masked =
    (r.fields masked).filterMap member? ++ r.contextMembers ++ r.statMembers := by
  simp only [members, fields, filterMap_member?_cons, optionalMember_eq, bodyMember_eq,
    List.append_assoc, contextMembers, statMembers]
  rfl

/-- Every value is a text, the duration, a list of context values or a stat. -/
theorem forall_members {P : Json → Prop} (htext : ∀ text, P (.string text))
    (helapsed : P (.integer (r.elapsed.getD 0))) (hcontext : ∀ values, P (contextValue values))
    (hstat : ∀ e ∈ r.scope.stats.entries, P (statValue e.2)) : ∀ m ∈ r.members masked, P m.2 := by
  have hfields : ∀ f ∈ r.fields masked, ∀ v ∈ f.2, P v := by
    have hoption (text : Option String) : ∀ v ∈ text.map Json.string, P v := by
      intro v hv
      obtain ⟨text, -, rfl⟩ := Option.map_eq_some_iff.mp hv
      exact htext text
    simp only [fields, List.forall_mem_cons, Option.mem_some_iff, forall_eq']
    exact ⟨htext _, htext _, htext _, htext _, htext _, hoption _, hoption _, hoption _, hoption _,
      helapsed, hoption _, hoption _, hoption _, nofun⟩
  intro m hm
  rw [members_eq] at hm
  rcases List.mem_append.mp hm with hm | hm
  · rcases List.mem_append.mp hm with hm | hm
    · obtain ⟨f, hf, hmember⟩ := List.mem_filterMap.mp hm
      obtain ⟨v, hv, rfl⟩ := Option.map_eq_some_iff.mp hmember
      exact hfields f hf v hv
    · obtain ⟨e, -, rfl⟩ := List.mem_map.mp hm
      exact hcontext e.2
  · obtain ⟨e, he, rfl⟩ := List.mem_map.mp hm
    exact hstat e he

/-! ## Names -/

theorem behind?_append (beginning text : String) :
    behind? beginning (beginning ++ text) = some text := by
  rw [behind?, String.toList_append, List.dropPrefix?_append_of_beq _ (beq_self_eq_true _)]
  exact congrArg some (String.ofList_toList)

theorem behind?_fieldNames :
    ∀ name ∈ fieldNames, behind? "context." name = none ∧ behind? "stat." name = none := by
  decide

theorem behind?_context (key : String) : behind? "stat." ("context." ++ key) = none := by
  rw [behind?, String.toList_append]
  rfl

theorem behind?_stat (key : String) : behind? "context." ("stat." ++ key) = none := by
  rw [behind?, String.toList_append]
  rfl

theorem names_sublist (fields : List (String × Option Json)) :
    ((fields.filterMap member?).map (·.1)).Sublist (fields.map (·.1)) := by
  induction fields with
  | nil => exact .slnil
  | cons f fields ih =>
    obtain ⟨name, value⟩ := f
    rw [filterMap_member?_cons, List.map_append, List.map_cons]
    cases value with
    | none => exact ih.cons _
    | some v => exact ih.cons_cons _

theorem nodup_keys {α : Type} (m : KeyMap α) (beginning : String) :
    (m.entries.map fun e => beginning ++ e.1).Nodup := by
  refine m.sorted.map _ fun a b hlt heq => ?_
  have hkeys : a.1 = b.1 := by
    have hbehind := congrArg (behind? beginning) heq
    rw [behind?_append, behind?_append] at hbehind
    exact Option.some.inj hbehind
  exact String.lt_irrefl _ (hkeys ▸ hlt)

theorem contextNames (r : Record) : r.contextMembers.map (·.1) =
    r.scope.context.entries.map fun e => "context." ++ e.1 := List.map_map

theorem statNames (r : Record) : r.statMembers.map (·.1) =
    r.scope.stats.entries.map fun e => "stat." ++ e.1 := List.map_map

theorem behind?_of_mem_fields (h : key ∈ ((r.fields masked).filterMap member?).map (·.1)) :
    behind? "context." key = none ∧ behind? "stat." key = none :=
  behind?_fieldNames key ((names_sublist (r.fields masked)).subset h)

theorem behind?_of_mem_context (h : key ∈ r.contextMembers.map (·.1)) :
    (behind? "context." key).isSome = true ∧ behind? "stat." key = none := by
  rw [contextNames] at h
  obtain ⟨e, -, rfl⟩ := List.mem_map.mp h
  rw [behind?_append]
  exact ⟨rfl, behind?_context e.1⟩

theorem behind?_of_mem_stat (h : key ∈ r.statMembers.map (·.1)) :
    behind? "context." key = none ∧ (behind? "stat." key).isSome = true := by
  rw [statNames] at h
  obtain ⟨e, -, rfl⟩ := List.mem_map.mp h
  rw [behind?_append]
  exact ⟨behind?_stat e.1, rfl⟩

/-- **No two members have the same name**, whatever keys were chosen. -/
theorem nodup_names (masked : Trace.Mask.Registry) (r : Record) :
    ((r.members masked).map (·.1)).Nodup := by
  have hfields : (((r.fields masked).filterMap member?).map (·.1)).Nodup :=
    (names_sublist (r.fields masked)).nodup (by decide : fieldNames.Nodup)
  have hcontext : (r.contextMembers.map (·.1)).Nodup := by
    rw [contextNames]
    exact nodup_keys _ _
  have hstat : (r.statMembers.map (·.1)).Nodup := by
    rw [statNames]
    exact nodup_keys _ _
  rw [members_eq, List.map_append, List.map_append]
  refine List.nodup_append.mpr ⟨List.nodup_append.mpr ⟨hfields, hcontext, ?_⟩, hstat, ?_⟩
  · rintro name hname _ hother rfl
    have hsome := (behind?_of_mem_context hother).1
    rw [(behind?_of_mem_fields hname).1] at hsome
    cases hsome
  · rintro name hname _ hother rfl
    have hsome := (behind?_of_mem_stat hother).2
    have hnone : behind? "stat." name = none :=
      (List.mem_append.mp hname).elim (fun h => (behind?_of_mem_fields h).2)
        fun h => (behind?_of_mem_context h).2
    rw [hnone] at hsome
    cases hsome

/-! ## Reading back -/

theorem find?_eq_none_of_names {members : List (String × Json)} (h : key ∉ members.map (·.1)) :
    members.find? (·.1 = key) = none := by
  rw [List.find?_eq_none]
  intro m hm heq
  exact h (List.mem_map.mpr ⟨m, hm, of_decide_eq_true heq⟩)

theorem find?_fields {fields : List (String × Option Json)} (hnames : (fields.map (·.1)).Nodup)
    (h : (key, value) ∈ fields) :
    (fields.filterMap member?).find? (·.1 = key) = member? (key, value) := by
  induction fields with
  | nil => cases h
  | cons f fields ih =>
    obtain ⟨hfresh, hnames⟩ := List.nodup_cons.mp hnames
    rw [filterMap_member?_cons, List.find?_append]
    rcases List.mem_cons.mp h with rfl | h
    · cases value with
      | none =>
        exact find?_eq_none_of_names fun hmem => hfresh ((names_sublist fields).subset hmem)
      | some v =>
        have hfound : [(key, v)].find? (·.1 = key) = some (key, v) :=
          List.find?_cons_of_pos (decide_eq_true rfl)
        exact congrArg (Option.or · _) hfound
    · have hother : f.1 ≠ key := fun heq => hfresh (List.mem_map.mpr ⟨_, h, heq.symm⟩)
      have hnone : (member? f).toList.find? (·.1 = key) = none := by
        refine find?_eq_none_of_names fun hmem => ?_
        obtain ⟨name, value⟩ := f
        cases value with
        | none => cases hmem
        | some v => exact hother (List.mem_singleton.mp hmem).symm
      rw [hnone, Option.none_or]
      exact ih hnames h

/-- The value of a field. -/
theorem member?_toJson (h : (key, value) ∈ r.fields masked) :
    (r.toJson masked).member? key = value := by
  have hname : key ∈ (r.fields masked).map (·.1) := List.mem_map.mpr ⟨_, h, rfl⟩
  obtain ⟨hcontext, hstat⟩ := behind?_fieldNames key hname
  have hnoContext : r.contextMembers.find? (·.1 = key) = none := by
    refine find?_eq_none_of_names fun hmem => ?_
    have hsome := (behind?_of_mem_context hmem).1
    rw [hcontext] at hsome
    cases hsome
  have hnoStat : r.statMembers.find? (·.1 = key) = none := by
    refine find?_eq_none_of_names fun hmem => ?_
    have hsome := (behind?_of_mem_stat hmem).2
    rw [hstat] at hsome
    cases hsome
  have hnames : ((r.fields masked).map (·.1)).Nodup := (by decide : fieldNames.Nodup)
  rw [toJson, Json.member?, members_eq, List.find?_append, List.find?_append, hnoContext, hnoStat,
    Option.or_none, Option.or_none, find?_fields hnames h]
  cases value <;> rfl

theorem text?_toJson {text : String} (h : (key, some (.string text)) ∈ r.fields masked) :
    text? key (r.toJson masked) = some text := by
  rw [text?, member?_toJson h]
  rfl

theorem optional?_toJson {text : Option String} (h : (key, text.map .string) ∈ r.fields masked) :
    optional? key (r.toJson masked) = some text := by
  rw [optional?, member?_toJson h]
  cases text <;> rfl

/-- Members without a beginning are in no group of it. -/
theorem group_eq_nil {members : List (String × Json)} {beginning : String}
    (h : ∀ name ∈ members.map (·.1), behind? beginning name = none) :
    members.filterMap (fun m => (behind? beginning m.1).map (·, m.2)) = [] := by
  rw [List.filterMap_eq_nil_iff]
  intro m hm
  rw [h m.1 (List.mem_map.mpr ⟨m, hm, rfl⟩)]
  rfl

/-- Members that were given a beginning are the group of it. -/
theorem group_eq {α : Type} (beginning : String) (f : α → Json) (entries : List (String × α)) :
    (entries.map fun e => (beginning ++ e.1, f e.2)).filterMap
      (fun m => (behind? beginning m.1).map (·, m.2)) = entries.map fun e => (e.1, f e.2) := by
  rw [List.filterMap_map, List.filterMap_eq_map_iff_forall_eq_some]
  intro e _
  rw [Function.comp, behind?_append]
  rfl

theorem grouped_context : grouped "context." (r.toJson masked) =
    r.scope.context.entries.map fun e => (e.1, contextValue e.2) := by
  rw [toJson, grouped, members_eq, List.filterMap_append, List.filterMap_append,
    group_eq_nil fun name h => (behind?_of_mem_fields h).1,
    group_eq_nil fun name h => (behind?_of_mem_stat h).1, List.nil_append, List.append_nil]
  exact group_eq "context." contextValue _

theorem grouped_stat : grouped "stat." (r.toJson masked) =
    r.scope.stats.entries.map fun e => (e.1, statValue e.2) := by
  rw [toJson, grouped, members_eq, List.filterMap_append, List.filterMap_append,
    group_eq_nil fun name h => (behind?_of_mem_fields h).2,
    group_eq_nil fun name h => (behind?_of_mem_context h).2, List.nil_append, List.nil_append]
  exact group_eq "stat." statValue _

/-- A group is read entry by entry. -/
theorem mapM_entries {α β : Type} {f : α → Json} {g : Json → Option β} {h : α → β}
    (hread : ∀ a, g (f a) = some (h a)) (entries : List (String × α)) :
    ((entries.map fun e => (e.1, f e.2)).mapM fun m => (g m.2).map (m.1, ·)) =
      some (entries.map fun e => (e.1, h e.2)) := by
  rw [List.mapM_map]
  simp only [Function.comp_def, hread, Option.map_some]
  exact List.mapM_pure

theorem values?_contextValue (values : List String) :
    values? (contextValue values) = some values := by
  have hlist (values : List String) : values? (.array (values.map Json.string)) = some values := by
    rw [values?, List.mapM_map]
    exact List.mapM_pure.trans (congrArg some (List.map_id _))
  match values with
  | [] => exact hlist []
  | [text] => rfl
  | text :: next :: values => exact hlist (text :: next :: values)

theorem stat?_statValue (x : Float) :
    stat? (statValue x) = some (if Decimal.isFinite x then some x else none) := by
  rw [statValue]
  split <;> rfl

/-- **The contents of a record are read back from its object.** -/
theorem ofJson?_toJson (masked : Trace.Mask.Registry) (r : Record) :
    ofJson? (r.toJson masked) = some (r.contents masked) := by
  have field {i : Nat} {f : String × Option Json} (h : (r.fields masked)[i]? = some f) :
      f ∈ r.fields masked := List.mem_of_getElem? h
  have helapsed :
      ((r.toJson masked).member? "elapsed").bind natural? = some (r.elapsed.getD 0) := by
    rw [member?_toJson (field (i := 9) rfl)]
    rfl
  have hcontext : group? "context." values? (r.toJson masked) = some r.scope.context.entries := by
    rw [group?, grouped_context, mapM_entries values?_contextValue]
    exact congrArg some (List.map_id _)
  have hstat : group? "stat." stat? (r.toJson masked) = some (r.contents masked).stats := by
    rw [group?, grouped_stat, mapM_entries stat?_statValue]
    rfl
  have houtcome : Outcome.ofName r.outcome.name = r.outcome := by cases r.outcome <;> rfl
  simp only [ofJson?, text?_toJson (field (i := 0) rfl), text?_toJson (field (i := 2) rfl),
    text?_toJson (field (i := 3) rfl), text?_toJson (field (i := 4) rfl), helapsed,
    optional?_toJson (field (i := 5) rfl), optional?_toJson (field (i := 6) rfl),
    optional?_toJson (field (i := 7) rfl), optional?_toJson (field (i := 8) rfl),
    optional?_toJson (field (i := 10) rfl), optional?_toJson (field (i := 11) rfl),
    optional?_toJson (field (i := 12) rfl), hcontext, hstat, Option.bind_eq_bind, Option.bind_some,
    houtcome]
  rfl

/-! ## Lines -/

theorem forall_contextValue {P : Json → Prop} (htext : ∀ text, P (.string text))
    (hlist : ∀ values : List String, P (.array (values.map Json.string))) (values : List String) :
    P (contextValue values) := by
  match values with
  | [] => exact hlist []
  | [text] => exact htext text
  | text :: next :: values => exact hlist (text :: next :: values)

theorem finite_toJson (masked : Trace.Mask.Registry) (r : Record) : (r.toJson masked).Finite := by
  have htext (text : String) : (Json.string text).Finite := by
    rw [Json.Finite]
    trivial
  rw [toJson, Json.Finite]
  refine Json.finiteMembers_of_forall (forall_members htext ?_ (forall_contextValue htext ?_) ?_)
  · rw [Json.Finite]
    trivial
  · intro values
    rw [Json.Finite]
    refine Json.finiteItems_of_forall fun item hitem => ?_
    obtain ⟨text, -, rfl⟩ := List.mem_map.mp hitem
    exact htext text
  · intro e _
    rw [statValue]
    split
    · next h => rwa [Json.Finite]
    · rw [Json.Finite]
      trivial

/-- **Nothing passes for something else.** Records with the same line have the same contents, even
if other names were masked in them. -/
theorem contents_eq_of_line {masked' : Trace.Mask.Registry} {r' : Record}
    (h : r.line masked = r'.line masked') : r.contents masked = r'.contents masked' := by
  have hobject : r.toJson masked = r'.toJson masked' :=
    Json.text_inj (finite_toJson masked r) (finite_toJson masked' r') h
  have hcontents := ofJson?_toJson masked r
  rw [hobject, ofJson?_toJson] at hcontents
  exact (Option.some.inj hcontents).symm

/-- A record whose line can be read: its duration fits 64 bits, as that of a clock does, and the
text of each finite stat is read as the stat. -/
structure Legible (r : Record) : Prop where
  elapsed : r.elapsed.getD 0 < Json.wholeLimit
  stats : ∀ e ∈ r.scope.stats.entries, Decimal.isFinite e.2 = true → Json.ReadsBack e.2

instance : DecidablePred Legible := fun r => decidable_of_iff
  (r.elapsed.getD 0 < Json.wholeLimit ∧
    ∀ e ∈ r.scope.stats.entries, Decimal.isFinite e.2 = true → Json.ReadsBack e.2)
  ⟨fun h => ⟨h.1, h.2⟩, fun h => ⟨h.elapsed, h.stats⟩⟩

theorem Legible.readable (h : r.Legible) (masked : Trace.Mask.Registry) :
    (r.toJson masked).Readable Json.depthLimit := by
  have htext {depth : Nat} (text : String) : (Json.string text).Readable depth := by
    rw [Json.Readable]
    trivial
  rw [toJson, Json.Readable]
  refine ⟨by decide, nodup_names masked r, Json.readableMembers_of_forall
    (forall_members htext ?_ (forall_contextValue htext ?_) ?_)⟩
  · rw [Json.Readable]
    have hlimit := h.elapsed
    omega
  · intro values
    rw [Json.Readable]
    refine ⟨by decide, Json.readableItems_of_forall fun item hitem => ?_⟩
    obtain ⟨text, -, rfl⟩ := List.mem_map.mp hitem
    exact htext text
  · intro e he
    rw [statValue]
    split
    · next hfinite =>
      rw [Json.Readable]
      exact h.stats e he hfinite
    · rw [Json.Readable]
      trivial

/-- **The object of a record is read back from its line.** -/
theorem Legible.read_line (h : r.Legible) (masked : Trace.Mask.Registry) :
    Json.read (r.line masked).toList = .ok (r.toJson masked) := by
  rw [line, Json.text, String.toList_ofList]
  exact Json.read_render (h.readable masked)

end Logbook.Record
