import Logbook.Toml.Value

/-!
# TOML documents

A document is a list of lines: a key with its value, a header that opens a table, or a header in
double brackets that opens a further table of a list. `Document.read?` gives the entries of the root
in the order in which they came to be; a table that was mentioned before its header moves to the end
when its header is closed.
-/

namespace Logbook.Toml

/-- Applies `f` to the table at the end of a path and rebuilds the way to it. Tables that are
missing are made with the origin `fresh`; in a list of tables the way goes through the last. A
dotted key may not enter a table of another making, which `enter` tells. -/
def atPath {α : Type} (fresh : Origin) (enter : Origin → Bool) :
    List String → (Origin → Entries → Option (α × Entries)) → Origin → Entries →
      Option (α × Entries)
  | [], f, origin, entries => f origin entries
  | part :: path, f, _, entries =>
    match entries.get? part with
    | none =>
      (atPath fresh enter path f fresh []).map fun (a, inner) =>
        (a, entries.set part (.table fresh inner))
    | some (.table origin inner) =>
      if enter origin then
        (atPath fresh enter path f origin inner).map fun (a, inner) =>
          (a, entries.set part (.table origin inner))
      else none
    | some (.tables elements) =>
      match elements.getLast? with
      | none => none
      | some last =>
        (atPath fresh enter path f .explicit last).map fun (a, last) =>
          (a, entries.set part (.tables (elements.dropLast ++ [last])))
    | some _ => none

/-- A document on the way: the tables that are closed, and the one that is open under its header. -/
structure Draft where
  root : Entries
  path : List String
  inList : Bool
  current : Entries

namespace Draft

def empty : Draft := ⟨[], [], false, []⟩

def addValue (key : List String) (node : Node) (d : Draft) : Option Draft :=
  let (path, last) := splitKey key
  let put (origin : Origin) (entries : Entries) : Option (Unit × Entries) :=
    if (origin = .dotted) ↔ path = [] then none
    else (entries.add? last node).map fun entries => ((), entries)
  (atPath .dotted (· ≠ .explicit) path put .explicit d.current).map fun (_, current) =>
    { d with current := current }

def atParent {α : Type} (path : List String) (root : Entries)
    (f : Entries → Option (α × Entries)) : Option (α × Entries) :=
  atPath .implied (fun _ => true) path (fun _ entries => f entries) .explicit root

/-- Closes the open table: its entries go to their place. -/
def close (d : Draft) : Option Entries :=
  if d.path.isEmpty then some d.current
  else
    let (path, last) := splitKey d.path
    let put (entries : Entries) : Option (Unit × Entries) :=
      if d.inList then
        match entries.get? last with
        | none => some ((), entries.set last (.tables [d.current]))
        | some (.tables elements) => some ((), entries.set last (.tables (elements ++ [d.current])))
        | some _ => none
      else
        (entries.add? last (.table .explicit d.current)).map fun entries => ((), entries)
    (atParent path d.root put).map fun (_, root) => root

/-- Opens the table of a header. A table that was only mentioned so far is taken out of its place
and keeps its entries. -/
def openTable (header : List String) (d : Draft) : Option Draft := do
  let root ← d.close
  let (path, last) := splitKey header
  let takeOut (entries : Entries) : Option (Entries × Entries) :=
    match entries.get? last with
    | none => some ([], entries)
    | some (.table .implied inner) => some (inner, entries.remove last)
    | some _ => none
  let (inner, root) ← atParent path root takeOut
  some ⟨root, header, false, inner⟩

def openListed (header : List String) (d : Draft) : Option Draft := do
  let root ← d.close
  let (path, last) := splitKey header
  let look (entries : Entries) : Option (Unit × Entries) :=
    match entries.get? last with
    | none => some ((), entries.set last (.tables []))
    | some (.tables _) => some ((), entries)
    | some _ => none
  let (_, root) ← atParent path root look
  some ⟨root, header, true, []⟩

end Draft

namespace Document

def headerLine? (text : List Char) (d : Draft) : Option (Draft × List Char) :=
  match text with
  | '[' :: '[' :: rest => do
    let (key, rest) ← key? rest
    let rest ← (char? ']' rest).bind (char? ']')
    let rest ← lineEnd? rest
    let d ← d.openListed key
    some (d, rest)
  | '[' :: rest => do
    let (key, rest) ← key? rest
    let rest ← char? ']' rest
    let rest ← lineEnd? rest
    let d ← d.openTable key
    some (d, rest)
  | _ => none

def valueLine? (text : List Char) (d : Draft) : Option (Draft × List Char) := do
  let (key, rest) ← key? text
  let rest ← char? '=' rest
  let (node, rest) ← value? (2 * rest.length + 2) 0 (skipBlanks rest)
  let rest ← lineEnd? rest
  let d ← d.addValue key node
  some (d, rest)

def lines? : Nat → List Char → Draft → Option Draft
  | 0, _, _ => none
  | fuel + 1, text, d =>
    let text := skipBlanks text
    match text with
    | [] => some d
    | c :: _ =>
      if c = '#' ∨ c = '\n' ∨ c = '\r' then (lineEnd? text).bind fun rest => lines? fuel rest d
      else
        let line := if c = '[' then headerLine? text d else valueLine? text d
        line.bind fun (d, rest) => lines? fuel rest d

def dropMark : List Char → List Char
  | c :: text => if c.toNat = 0xFEFF then text else c :: text
  | [] => []

def read? (text : List Char) : Option Entries :=
  let text := dropMark text
  (lines? (text.length + 1) text .empty).bind Draft.close

end Document

end Logbook.Toml
