import Logbook.Toml.Number

/-!
# Values in TOML

Values nest through arrays and through inline tables. Of a table it matters how it came to be: a
table in braces is closed; one that a dotted key mentions may grow by further dotted keys; one that
a header mentions on the way to another may still get its own header.
-/

namespace Logbook.Toml

inductive Origin where
  /-- Written in braces, or under its own header. -/
  | explicit
  /-- Mentioned by the header of a table inside it. -/
  | implied
  /-- Mentioned by a dotted key. -/
  | dotted
  deriving DecidableEq, Repr

inductive Node where
  | scalar (value : Scalar)
  | array (items : List Node)
  | inline (entries : List (String × Node))
  | table (origin : Origin) (entries : List (String × Node))
  /-- The tables under a header in double brackets. -/
  | tables (elements : List (List (String × Node)))

abbrev Entries := List (String × Node)

namespace Entries

def get? (key : String) (entries : Entries) : Option Node :=
  (entries.find? (·.1 = key)).map (·.2)

/-- Replaces the value of a key where it stands, or adds the key at the end. -/
def set (key : String) (node : Node) : Entries → Entries
  | [] => [(key, node)]
  | (k, n) :: entries => if k = key then (k, node) :: entries else (k, n) :: set key node entries

def remove (key : String) (entries : Entries) : Entries := entries.filter (·.1 ≠ key)

def add? (key : String) (node : Node) (entries : Entries) : Option Entries :=
  if entries.any (·.1 = key) then none else some (entries ++ [(key, node)])

end Entries

def splitKey (key : List String) : List String × String := (key.dropLast, key.getLast?.getD "")

/-! ## Inline tables -/

/-- Adds a value under a dotted key inside braces: the tables on the way are made by dotted keys of
the same braces. -/
def addInline : List String → String → Node → Entries → Option Entries
  | [], key, node, entries => entries.add? key node
  | part :: path, key, node, entries =>
    match entries.get? part with
    | none => (addInline path key node []).map fun inner => entries.set part (.table .dotted inner)
    | some (.table .dotted inner) =>
      (addInline path key node inner).map fun inner => entries.set part (.table .dotted inner)
    | some _ => none

def inlineEntries? (pairs : List (List String × Node)) : Option Entries :=
  pairs.foldlM (fun entries (key, node) =>
    let (path, last) := splitKey key
    addInline path last node entries) []

/-! ## Reading -/

/-- Skips blanks, comments and line ends inside an array. -/
def skipInArray (text : List Char) : List Char := skipLines (text.length + 1) text

mutual

/-- A value inside `depth` arrays and inline tables. -/
def value? : Nat → Nat → List Char → Option (Node × List Char)
  | 0, _, _ => none
  | fuel + 1, depth, text =>
    match text with
    | [] => none
    | '[' :: rest =>
      if depthLimit ≤ depth + 1 then none
      else (items? fuel (depth + 1) [] rest).map fun (items, rest) => (.array items, rest)
    | '\x7b' :: rest =>
      if depthLimit ≤ depth + 1 then none
      else do
        let (pairs, rest) ← pairs? fuel (depth + 1) [] rest
        let entries ← inlineEntries? pairs
        some (.inline entries, rest)
    | 't' :: 'r' :: 'u' :: 'e' :: rest => some (.scalar (.boolean true), rest)
    | 'f' :: 'a' :: 'l' :: 's' :: 'e' :: rest => some (.scalar (.boolean false), rest)
    | c :: _ =>
      if c = '"' ∨ c = '\x27' then
        (string? text).map fun (s, rest) => (.scalar (.string s), rest)
      else if c = 'i' ∨ c = 'n' then
        (namedFloat? text).map fun (x, rest) => (.scalar (.float x), rest)
      else if c.isDigit ∨ c = '+' ∨ c = '-' then
        (numeric? text).map fun (s, rest) => (.scalar s, rest)
      else none

/-- The items of an array up to its bracket; a comma may stand behind the last. -/
def items? : Nat → Nat → List Node → List Char → Option (List Node × List Char)
  | 0, _, _, _ => none
  | fuel + 1, depth, done, text =>
    let text := skipInArray text
    match text with
    | ']' :: rest => some (done.reverse, rest)
    | _ => do
      let (item, rest) ← value? fuel depth text
      match skipInArray rest with
      | ',' :: rest => items? fuel depth (item :: done) rest
      | ']' :: rest => some ((item :: done).reverse, rest)
      | _ => none

/-- The keys and values of an inline table up to its brace, on one line. -/
def pairs? : Nat → Nat → List (List String × Node) → List Char →
    Option (List (List String × Node) × List Char)
  | 0, _, _, _ => none
  | fuel + 1, depth, done, text =>
    match skipBlanks text with
    | '\x7d' :: rest => if done.isEmpty then some ([], rest) else none
    | text => do
      let (key, rest) ← key? text
      let rest ← char? '=' rest
      let (value, rest) ← value? fuel depth (skipBlanks rest)
      match skipBlanks rest with
      | ',' :: rest => pairs? fuel depth ((key, value) :: done) rest
      | '\x7d' :: rest => some (((key, value) :: done).reverse, rest)
      | _ => none

end

end Logbook.Toml
