import Mathlib.Logic.Function.Basic
import Logbook.Proofs.Text.Ascii
import Logbook.Proofs.Trace.Writes

/-! Context under names that are registered as time goes by. Registrations and puts come in any
order, to any number of scopes. Each put is masked by the names of the registrations before it
(`scopes_run`), so what was put before its key was registered stays, and what comes after is never
seen. -/

namespace Logbook

namespace Trace

open Ascii

namespace Mask.Registry

theorem isMasked_iff (r : Registry) (name : String) :
    r.isMasked name = true ↔ foldString name ∈ r.names :=
  List.contains_iff_mem

theorem isMasked_add (r : Registry) (n name : String) :
    (r.add n).isMasked name = true ↔ r.isMasked name = true ∨ SameName n name := by
  have hsame : foldString name = foldString n ↔ SameName n name :=
    eq_comm.trans (foldString_eq_iff n name)
  rw [isMasked_iff, isMasked_iff, add, ← hsame]
  split
  · next hknown =>
    refine ⟨.inl, fun h => h.elim id fun heq => ?_⟩
    exact heq ▸ List.contains_iff_mem.mp hknown
  · rw [List.mem_append, List.mem_singleton]

theorem isMasked_register (r : Registry) (names : List String) (name : String) :
    (r.register names).isMasked name = true ↔
      r.isMasked name = true ∨ ∃ n ∈ names, SameName n name := by
  induction names generalizing r with
  | nil => simp [register]
  | cons n names ih =>
    rw [register, List.foldl_cons, ← register, ih, isMasked_add, List.exists_mem_cons_iff, or_assoc]

theorem names_add (r : Registry) (n : String) : r.names <+: (r.add n).names := by
  rw [add]
  split
  · exact List.prefix_rfl
  · exact List.prefix_append ..

theorem names_register (r : Registry) (names : List String) :
    r.names <+: (r.register names).names := by
  induction names generalizing r with
  | nil => exact List.prefix_rfl
  | cons n names ih => exact (names_add r n).trans (ih (r.add n))

end Mask.Registry

/-- What is done in a process to the masked names and to its scopes. -/
inductive Deed (ι : Type) where
  | register (names : List String)
  | put (scope : ι) (key : String) (values : List String)

/-- The masked names of a process, and its scopes. -/
structure Scopes (ι : Type) where
  masked : Mask.Registry
  scopes : ι → Scope

namespace Scopes

variable {ι : Type} [DecidableEq ι]

/-- No name is registered, and nothing was written yet. -/
def start (links : ι → Link) : Scopes ι := ⟨.empty, fun i => .named (links i).id (links i).action⟩

/-- A put looks at the names once, and nobody else writes into its scope meanwhile. -/
def apply (s : Scopes ι) : Deed ι → Scopes ι
  | .register names => { s with masked := s.masked.register names }
  | .put i key values =>
    { s with scopes := Function.update s.scopes i ((s.scopes i).put s.masked key values) }

def run (deeds : List (Deed ι)) (s : Scopes ι) : Scopes ι := deeds.foldl apply s

/-! ## What a history tells -/

/-- All names that were registered. -/
def registered : List (Deed ι) → List String
  | [] => []
  | .register names :: deeds => names ++ registered deeds
  | .put .. :: deeds => registered deeds

/-- The values of each put under a key of a scope. -/
def given (i : ι) (key : String) : List (Deed ι) → List (List String)
  | [] => []
  | .register _ :: deeds => given i key deeds
  | .put j k values :: deeds =>
    if j = i ∧ k = key then values :: given i key deeds else given i key deeds

/-- The values of a put, after some names have been registered. -/
def shown (names : List String) (key : String) (values : List String) : List String :=
  if ∃ n ∈ names, SameName n key then values.map fun _ => Mask.mask else values

/-- The values of each put under a key of a scope as they are shown, after some names have been
registered; each put finds the registrations before it. -/
def shownPuts (i : ι) (key : String) : List String → List (Deed ι) → List (List String)
  | _, [] => []
  | names, .register more :: deeds => shownPuts i key (names ++ more) deeds
  | names, .put j k values :: deeds =>
    if j = i ∧ k = key then shown names key values :: shownPuts i key names deeds
    else shownPuts i key names deeds

theorem length_shown (names : List String) (key : String) (values : List String) :
    (shown names key values).length = values.length := by
  rw [shown]
  split
  · exact List.length_map _
  · rfl

theorem lengths_shownPuts (i : ι) (key : String) (names : List String) (deeds : List (Deed ι)) :
    (shownPuts i key names deeds).map List.length = (given i key deeds).map List.length := by
  induction deeds generalizing names with
  | nil => rfl
  | cons deed deeds ih =>
    cases deed with
    | register more => exact ih (names ++ more)
    | put j k values =>
      rw [shownPuts, given]
      split
      · rw [List.map_cons, List.map_cons, length_shown, ih]
      · exact ih names

/-! ## Runs -/

variable {deeds : List (Deed ι)} {s : Scopes ι}

theorem run_append (deeds later : List (Deed ι)) (s : Scopes ι) :
    run (deeds ++ later) s = run later (run deeds s) :=
  List.foldl_append

theorem masked_run (deeds : List (Deed ι)) (s : Scopes ι) :
    (run deeds s).masked = s.masked.register (registered deeds) := by
  induction deeds generalizing s with
  | nil => rfl
  | cons deed deeds ih =>
    refine (ih (s.apply deed)).trans ?_
    cases deed with
    | register names => exact List.foldl_append.symm
    | put => rfl

/-- The puts into one scope, each with the masked names that it finds. -/
def writes (i : ι) : Mask.Registry → List (Deed ι) → List Scope.Write
  | _, [] => []
  | masked, .register names :: deeds => writes i (masked.register names) deeds
  | masked, .put j key values :: deeds =>
    if j = i then .put masked key values :: writes i masked deeds else writes i masked deeds

theorem scopes_run (i : ι) (deeds : List (Deed ι)) (s : Scopes ι) :
    (run deeds s).scopes i = (s.scopes i).writeAll (writes i s.masked deeds) := by
  induction deeds generalizing s with
  | nil => rfl
  | cons deed deeds ih =>
    refine (ih (s.apply deed)).trans ?_
    cases deed with
    | register names => rfl
    | put j key values =>
      rw [writes]
      by_cases h : j = i
      · subst h
        rw [if_pos rfl]
        exact congrArg (Scope.writeAll _) (Function.update_self ..)
      · rw [if_neg h]
        exact congrArg (Scope.writeAll _) (Function.update_of_ne (Ne.symm h) ..)

theorem values?_writes (i : ι) (key : String) {masked : Mask.Registry} {names : List String}
    (h : ∀ name, masked.isMasked name = true ↔ ∃ n ∈ names, SameName n name) :
    (writes i masked deeds).filterMap (Scope.Write.values? key) = shownPuts i key names deeds := by
  induction deeds generalizing masked names with
  | nil => rfl
  | cons deed deeds ih =>
    cases deed with
    | register more =>
      refine ih fun name => ?_
      rw [Mask.Registry.isMasked_register, h]
      simp only [List.mem_append, or_and_right, exists_or]
    | put j k values =>
      rw [writes, shownPuts]
      by_cases hj : j = i
      · rw [if_pos hj, List.filterMap_cons, Scope.Write.values?, ih h]
        by_cases hk : k = key
        · rw [if_pos hk, if_pos ⟨hj, hk⟩]
          simp only [Record.written, shown, h]
        · rw [if_neg hk, if_neg fun both => hk both.2]
      · rw [if_neg hj, if_neg fun both => hj both.1, ih h]

theorem stats_writeAll_writes (i : ι) (masked : Mask.Registry) (deeds : List (Deed ι))
    (scope : Scope) : (scope.writeAll (writes i masked deeds)).stats = scope.stats := by
  induction deeds generalizing masked scope with
  | nil => rfl
  | cons deed deeds ih =>
    cases deed with
    | register names => exact ih ..
    | put j key values =>
      rw [writes]
      split
      · exact ih masked (scope.put masked key values)
      · exact ih masked scope

/-- Values of a put under a masked key leave no trace but their number. -/
theorem apply_put_congr {key : String} (h : s.masked.isMasked key = true) (i : ι)
    {values values' : List String} (hlength : values'.length = values.length) :
    s.apply (.put i key values') = s.apply (.put i key values) := by
  have hput : (s.scopes i).put s.masked key values' = (s.scopes i).put s.masked key values := by
    rw [Scope.put, Scope.put, if_pos h, if_pos h, List.map_const', List.map_const', hlength]
  rw [apply, apply, hput]

theorem isMasked_run_start (links : ι → Link) (deeds : List (Deed ι)) (name : String) :
    (run deeds (start links)).masked.isMasked name = true ↔
      ∃ n ∈ registered deeds, SameName n name := by
  have hempty : ¬ (start links).masked.isMasked name = true := nofun
  rw [masked_run, Mask.Registry.isMasked_register, or_iff_right hempty]

/-- **Context under registered names.** The masked names only grow, and are those that were
registered, in any case. In each scope the list under a key holds the values of all puts to it in
order, each put masked if a registration before it named the key, and as many as were given; stats
and the names of the scope stay. What is put under a masked key shows in no line of a record with
one of the scopes. -/
theorem context_of_run (links : ι → Link) (deeds : List (Deed ι)) :
    (∀ before after, deeds = before ++ after →
      (run before (start links)).masked.names <+: (run deeds (start links)).masked.names) ∧
    (∀ name, (run deeds (start links)).masked.isMasked name = true ↔
      ∃ n ∈ registered deeds, SameName n name) ∧
    (∀ i key, ((run deeds (start links)).scopes i).context.get? key =
      match shownPuts i key [] deeds with
      | [] => none
      | puts => some puts.flatten) ∧
    (∀ i key, (shownPuts i key [] deeds).map List.length = (given i key deeds).map List.length) ∧
    (∀ i, ((run deeds (start links)).scopes i).stats = .empty ∧
      ((run deeds (start links)).scopes i).link = links i) ∧
    (∀ before i key values after, deeds = before ++ Deed.put i key values :: after →
      (∃ n ∈ registered before, SameName n key) → ∀ others : List String,
      others.length = values.length → ∀ j (r : Record) masked,
        ({ r with scope := (run deeds (start links)).scopes j }).line masked =
          ({ r with scope := (run (before ++ Deed.put i key others :: after)
            (start links)).scopes j }).line masked) := by
  refine ⟨?_, isMasked_run_start links deeds, fun i key => ?_, fun i key => lengths_shownPuts ..,
    fun i => ⟨?_, ?_⟩, ?_⟩
  · rintro before after rfl
    rw [run_append, masked_run after]
    exact Mask.Registry.names_register ..
  · have hstart (name : String) : (start links).masked.isMasked name = true ↔
        ∃ n ∈ ([] : List String), SameName n name := by
      simp [start, Mask.Registry.isMasked, Mask.Registry.empty]
    rw [scopes_run, Scope.context_writeAll, values?_writes i key hstart]
    rfl
  · rw [scopes_run, stats_writeAll_writes]
    rfl
  · rw [scopes_run, Scope.link, Scope.id_writeAll, Scope.action_writeAll]
    rfl
  · rintro before i key values after rfl hnamed others hlength j r masked
    have hmasked := (isMasked_run_start links before key).mpr hnamed
    have hput : (run before (start links)).apply (.put i key values) =
        (run before (start links)).apply (.put i key others) :=
      apply_put_congr hmasked i hlength.symm
    -- the state behind the put is the same, and so is all that follows
    have hrun : run (before ++ Deed.put i key values :: after) (start links) =
        run (before ++ Deed.put i key others :: after) (start links) := by
      rw [run_append, run_append]
      exact congrArg (run after) hput
    rw [hrun]

/-- Two scopes; a key is registered in another case between two puts to it. -/
def lateKey (values : List String) : List (Deed Bool) :=
  [.put true "APIKEY" ["early"], .register ["apiKey"], .put true "APIKEY" values,
    .put false "apiKeys" ["plain"]]

theorem context_of_run_lateKey :
    let links : Bool → Link := fun _ => ⟨"id", "job"⟩
    let s := run (lateKey ["k-1", "k-2"]) (start links)
    (s.scopes true).context.get? "APIKEY" = some ["early", "******", "******"] ∧
      (s.scopes false).context.get? "apiKeys" = some ["plain"] ∧
      (∃ n ∈ registered ((lateKey ["k-1", "k-2"]).take 2), SameName n "APIKEY") ∧
      ∀ (r : Record) masked, ({ r with scope := s.scopes true }).line masked =
        ({ r with scope := (run (lateKey ["", ""]) (start links)).scopes true }).line masked := by
  intro links s
  obtain ⟨-, -, hcontext, -, -, hline⟩ := context_of_run links (lateKey ["k-1", "k-2"])
  have hnamed : ∃ n ∈ registered ((lateKey ["k-1", "k-2"]).take 2), SameName n "APIKEY" := by decide
  exact ⟨(hcontext true "APIKEY").trans (by decide), (hcontext false "apiKeys").trans (by decide),
    hnamed, hline _ true "APIKEY" ["k-1", "k-2"] _ rfl hnamed ["", ""] rfl true⟩

end Scopes

end Trace

end Logbook
