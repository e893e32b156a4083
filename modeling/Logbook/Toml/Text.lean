import Logbook.Number.Digits

/-!
# Texts and keys in TOML

A reader takes what it needs from the front of a text and returns the rest, or refuses. Here are the
blanks between tokens, comments, the four kinds of strings, and keys with their dots.
-/

namespace Logbook.Toml

def isBlank (c : Char) : Bool := c = ' ' ∨ c = '\t'

def skipBlanks (text : List Char) : List Char := text.dropWhile isBlank

def char? (expected : Char) : List Char → Option (List Char)
  | [] => none
  | c :: text => if c = expected then some text else none

/-- The end of a line: a line feed, also behind a carriage return. -/
def newline? : List Char → Option (List Char)
  | '\n' :: text => some text
  | '\r' :: '\n' :: text => some text
  | _ => none

/-- Characters that may stand in comments and strings: tabs, and all from the space on but the
delete character. -/
def isPlain (c : Char) : Bool := c = '\t' ∨ (0x20 ≤ c.toNat ∧ c.toNat ≠ 0x7F)

def skipComment (text : List Char) : List Char :=
  match text with
  | '#' :: rest => rest.dropWhile isPlain
  | _ => text

/-- Blanks, an optional comment, and the end of the line or of the text. -/
def lineEnd? (text : List Char) : Option (List Char) :=
  match skipComment (skipBlanks text) with
  | [] => some []
  | rest => newline? rest

def skipLines : Nat → List Char → List Char
  | 0, text => text
  | fuel + 1, text =>
    let rest := skipComment (skipBlanks text)
    match newline? rest with
    | some rest => skipLines fuel rest
    | none => rest

/-! ## Escapes -/

/-- A code point of exactly `width` hexadecimal digits. -/
def codePoint? (width : Nat) (text : List Char) : Option (Char × List Char) :=
  let digits := text.take width
  if digits.length < width then none
  else (digits.mapM (Digits.digit? 16)).bind fun ds =>
    let n := Digits.ofDigits 16 ds
    if n < 0xD800 ∨ (0xDFFF < n ∧ n < 0x110000) then some (Char.ofNat n, text.drop width) else none

def escape? : List Char → Option (Char × List Char)
  | 'b' :: text => some (Char.ofNat 8, text)
  | 't' :: text => some ('\t', text)
  | 'n' :: text => some ('\n', text)
  | 'f' :: text => some (Char.ofNat 12, text)
  | 'r' :: text => some ('\r', text)
  | '"' :: text => some ('"', text)
  | '\\' :: text => some ('\\', text)
  | 'u' :: text => codePoint? 4 text
  | 'U' :: text => codePoint? 8 text
  | _ => none

/-! ## Strings -/

/-- A string on one line, behind its opening quote; with escapes if the quote is double. `done`
holds the characters read, the last one first. -/
def lineString? (quote : Char) : Nat → List Char → List Char → Option (String × List Char)
  | 0, _, _ => none
  | _ + 1, _, [] => none
  | fuel + 1, done, c :: text =>
    if c = quote then some (String.ofList done.reverse, text)
    else if c = '\\' ∧ quote = '"' then
      match escape? text with
      | some (x, text) => lineString? quote fuel (x :: done) text
      | none => none
    else if isPlain c then lineString? quote fuel (c :: done) text
    else none

def skipEmptyLines : Nat → List Char → List Char
  | 0, text => text
  | fuel + 1, text =>
    match newline? (skipBlanks text) with
    | some rest => skipEmptyLines fuel rest
    | none => skipBlanks text

/-- The text behind a backslash at the end of a line: blanks and line ends are skipped up to the
next other character. -/
def skipFold? (text : List Char) : Option (List Char) :=
  (newline? (skipBlanks text)).map fun rest => skipEmptyLines (rest.length + 1) rest

/-- The number of quotes in front. -/
def quotes (quote : Char) (text : List Char) : Nat := (text.takeWhile (· = quote)).length

/-- A string over several lines, behind its three opening quotes. Three quotes close it; up to two
more in front of these belong to the string. -/
def linesString? (quote : Char) : Nat → List Char → List Char → Option (String × List Char)
  | 0, _, _ => none
  | _ + 1, _, [] => none
  | fuel + 1, done, c :: text =>
    if c = quote then
      let run := quotes quote (c :: text)
      if run < 3 then
        linesString? quote fuel (List.replicate run quote ++ done) (text.drop (run - 1))
      else
        let inside := min (run - 3) 2
        some (String.ofList (List.replicate inside quote ++ done).reverse, text.drop (inside + 2))
    else if c = '\\' ∧ quote = '"' then
      match skipFold? text with
      | some text => linesString? quote fuel done text
      | none =>
        match escape? text with
        | some (x, text) => linesString? quote fuel (x :: done) text
        | none => none
    else match newline? (c :: text) with
      | some text => linesString? quote fuel ('\n' :: done) text
      | none => if isPlain c then linesString? quote fuel (c :: done) text else none

/-- A string over several lines may start with a line end that does not count. -/
def dropNewline (text : List Char) : List Char := (newline? text).getD text

def string? (text : List Char) : Option (String × List Char) :=
  let fuel := text.length + 1
  match text with
  | '"' :: '"' :: '"' :: rest => linesString? '"' fuel [] (dropNewline rest)
  | '\x27' :: '\x27' :: '\x27' :: rest => linesString? '\x27' fuel [] (dropNewline rest)
  | '"' :: rest => lineString? '"' fuel [] rest
  | '\x27' :: rest => lineString? '\x27' fuel [] rest
  | _ => none

/-! ## Keys -/

def inBareKey (c : Char) : Bool := c.isAlphanum ∨ c = '_' ∨ c = '-'

def keyPart? (text : List Char) : Option (String × List Char) :=
  let fuel := text.length + 1
  match text with
  | '"' :: rest => lineString? '"' fuel [] rest
  | '\x27' :: rest => lineString? '\x27' fuel [] rest
  | _ =>
    let name := text.takeWhile inBareKey
    if name.isEmpty then none else some (String.ofList name, text.drop name.length)

/-- The further parts of a key. A dot without a part behind it does not belong to the key. -/
def moreParts : Nat → List Char → List String × List Char
  | 0, text => ([], text)
  | fuel + 1, text =>
    match (char? '.' text).bind fun rest => keyPart? (skipBlanks rest) with
    | none => ([], text)
    | some (part, rest) =>
      let (parts, rest) := moreParts fuel (skipBlanks rest)
      (part :: parts, rest)

/-- Keys and nested values are refused from this depth on. -/
def depthLimit : Nat := 80

/-- A key of parts between dots, with blanks around each. -/
def key? (text : List Char) : Option (List String × List Char) := do
  let (part, rest) ← keyPart? (skipBlanks text)
  let (parts, rest) := moreParts rest.length (skipBlanks rest)
  if depthLimit ≤ parts.length + 1 then none else some (part :: parts, rest)

end Logbook.Toml
