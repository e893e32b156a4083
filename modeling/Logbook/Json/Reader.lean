import Logbook.Json

/-!
# Reading JSON text

`Json.read` reads one value that fills a whole text. A refusal says why and where: the line, and the
number of bytes of that line read so far. Whole numbers of 64 bits stay whole, any other number is
read as a double: digits are collected while they fit 64 bits, the rest of them only count as powers
of ten, and the double of the digits is then multiplied or divided by a power of ten.
-/

namespace Logbook.Json

inductive Problem where
  | endInValue
  | endInList
  | endInObject
  | endInString
  | expectedColon
  | expectedListEnd
  | expectedObjectEnd
  | expectedWord
  | expectedValue
  | keyNotString
  | invalidNumber
  | numberOutOfRange
  | invalidEscape
  | controlCharacter
  | loneSurrogate
  | unfinishedSurrogate
  | trailingComma
  | trailingCharacters
  | tooDeep
  deriving DecidableEq, Repr

def Problem.message : Problem → String
  | .endInValue => "EOF while parsing a value"
  | .endInList => "EOF while parsing a list"
  | .endInObject => "EOF while parsing an object"
  | .endInString => "EOF while parsing a string"
  | .expectedColon => "expected \x60:\x60"
  | .expectedListEnd => "expected \x60,\x60 or \x60]\x60"
  | .expectedObjectEnd => "expected \x60,\x60 or \x60\x7d\x60"
  | .expectedWord => "expected ident"
  | .expectedValue => "expected value"
  | .keyNotString => "key must be a string"
  | .invalidNumber => "invalid number"
  | .numberOutOfRange => "number out of range"
  | .invalidEscape => "invalid escape"
  | .controlCharacter => "control character (\\u0000-\\u001F) found while parsing a string"
  | .loneSurrogate => "lone leading surrogate in hex escape"
  | .unfinishedSurrogate => "unexpected end of hex escape"
  | .trailingComma => "trailing comma"
  | .trailingCharacters => "trailing characters"
  | .tooDeep => "recursion limit exceeded"

structure ReadError where
  problem : Problem
  line : Nat
  column : Nat
  deriving DecidableEq, Repr

def ReadError.message (e : ReadError) : String :=
  e.problem.message ++ " at line " ++ toString e.line ++ " column " ++ toString e.column

/-- The unread text, and the line and byte column before it. -/
structure Cursor where
  rest : List Char
  line : Nat
  column : Nat

namespace Cursor

def start (text : List Char) : Cursor := ⟨text, 1, 0⟩

def advance (c : Cursor) : Cursor :=
  match c.rest with
  | [] => c
  | x :: rest => if x = '\n' then ⟨rest, c.line + 1, 0⟩ else ⟨rest, c.line, c.column + x.utf8Size⟩

def advanceBy : Nat → Cursor → Cursor
  | 0, c => c
  | n + 1, c => advanceBy n c.advance

def failure {α : Type} (c : Cursor) (p : Problem) : Except ReadError α :=
  .error ⟨p, c.line, c.column⟩

def failureAtNext {α : Type} (c : Cursor) (p : Problem) : Except ReadError α :=
  match c.rest with
  | [] => c.failure p
  | x :: _ =>
    if x = '\n' then .error ⟨p, c.line + 1, 0⟩ else .error ⟨p, c.line, c.column + 1⟩

def isSpace (x : Char) : Bool := x = ' ' ∨ x = '\n' ∨ x = '\t' ∨ x = '\r'

def skipSpace (c : Cursor) : Cursor := advanceBy (c.rest.takeWhile isSpace).length c

def next? (c : Cursor) : Option Char := c.rest.head?

end Cursor

/-! ## Words -/

/-- The remaining letters of `null`, `true` or `false`. -/
def readWord : List Char → Cursor → Except ReadError Cursor
  | [], c => .ok c
  | w :: ws, c =>
    match c.rest with
    | [] => c.failure .endInValue
    | x :: _ => if x = w then readWord ws c.advance else c.failureAtNext .expectedWord

/-! ## Numbers -/

/-- The largest whole number that digits are collected for. -/
def wholeLimit : Nat := Nat.pow 2 64

def isDigit? (c : Cursor) : Option Nat :=
  c.next?.bind fun x => if x.isDigit then some (x.toNat - '0'.toNat) else none

def skipDigits (c : Cursor) : Cursor := c.advanceBy (c.rest.takeWhile Char.isDigit).length

/-- Multiplies or divides by a power of ten; steps of `10 ^ 308` where one power does not do. -/
def scale (c : Cursor) : Nat → Float → Int → Except ReadError (Float × Cursor)
  | 0, x, _ => .ok (x, c)
  | fuel + 1, x, e =>
    if e.natAbs ≤ 308 then
      let power := Float.ofScientific 1 false e.natAbs
      if 0 ≤ e then
        let y := x * power
        if Decimal.isFinite y then .ok (y, c) else c.failure .numberOutOfRange
      else .ok (x / power, c)
    else if x == 0.0 then .ok (x, c)
    else if 0 ≤ e then c.failure .numberOutOfRange
    else scale c fuel (x / 1e308) (e + 308)

def readDouble (negative : Bool) (digits : Nat) (e : Int) (c : Cursor) :
    Except ReadError (Float × Cursor) :=
  (scale c (e.natAbs / 308 + 2) digits.toUInt64.toFloat e).map fun (x, c) =>
    (if negative then -x else x, c)

/-- The digits of an exponent; `none` if they do not fit 31 bits. -/
def exponentDigits : Nat → Nat → Cursor → Option Nat × Cursor
  | 0, e, c => (some e, c)
  | fuel + 1, e, c =>
    match isDigit? c with
    | none => (some e, c)
    | some d =>
      if Nat.pow 2 31 ≤ e * 10 + d then (none, c.advance)
      else exponentDigits fuel (e * 10 + d) c.advance

/-- The sign of an exponent, if it has one; whether it is no minus. -/
def exponentSign (c : Cursor) : Bool × Cursor :=
  match c.next? with
  | some '+' => (true, c.advance)
  | some '-' => (false, c.advance)
  | _ => (true, c)

/-- The digits of an exponent, of which there is at least one. -/
def readPower (negative : Bool) (digits : Nat) (start : Int) (positive : Bool) (c : Cursor) :
    Except ReadError (Float × Cursor) :=
  match c.next? with
  | none => c.failure .endInValue
  | some _ =>
    match isDigit? c with
    | none => c.failureAtNext .invalidNumber
    | some d =>
      match exponentDigits c.rest.length d c.advance with
      | (some e, c) => readDouble negative digits (if positive then start + e else start - e) c
      | (none, c) =>
        if digits ≠ 0 ∧ positive then c.failure .numberOutOfRange
        else .ok (if negative then -0.0 else 0.0, skipDigits c)

def readExponent (negative : Bool) (digits : Nat) (start : Int) (c : Cursor) :
    Except ReadError (Float × Cursor) :=
  let (positive, c) := exponentSign c.advance
  readPower negative digits start positive c

/-- The exponent, if one follows. -/
def readOptionalExponent (negative : Bool) (digits : Nat) (e : Int) (c : Cursor) :
    Except ReadError (Float × Cursor) :=
  match c.next? with
  | some 'e' | some 'E' => readExponent negative digits e c
  | _ => readDouble negative digits e c

/-- Collects digits behind the point while they fit. -/
def fractionDigits : Nat → Nat → Int → Cursor → Nat × Int × Cursor
  | 0, n, e, c => (n, e, c)
  | fuel + 1, n, e, c =>
    match isDigit? c with
    | none => (n, e, c)
    | some d =>
      if wholeLimit ≤ n * 10 + d then (n, e, skipDigits c)
      else fractionDigits fuel (n * 10 + d) (e - 1) c.advance

/-- The digits behind the point, of which there is at least one. -/
def readFraction (negative : Bool) (digits : Nat) (e : Int) (c : Cursor) :
    Except ReadError (Float × Cursor) :=
  let c := c.advance
  match isDigit? c with
  | none => c.failureAtNext (if c.rest.isEmpty then .endInValue else .invalidNumber)
  | some _ =>
    let (n, e, c) := fractionDigits c.rest.length digits e c
    readOptionalExponent negative n e c

/-- A whole number of 64 bits, with or without sign; beyond them, and for minus zero, a double. -/
def wholeValue (negative : Bool) (digits : Nat) : Json :=
  if !negative then .integer digits
  else if digits = 0 ∨ Nat.pow 2 63 < digits then .real (-digits.toUInt64.toFloat)
  else .integer (-(digits : Int))

def readAfterWhole (negative : Bool) (digits : Nat) (c : Cursor) :
    Except ReadError (Json × Cursor) :=
  match c.next? with
  | some '.' => (readFraction negative digits 0 c).map fun (x, c) => (.real x, c)
  | some 'e' | some 'E' => (readExponent negative digits 0 c).map fun (x, c) => (.real x, c)
  | _ => .ok (wholeValue negative digits, c)

/-- What follows digits that do not fit any more: further digits count as powers of ten. -/
def readLong (negative : Bool) (digits : Nat) (c : Cursor) : Except ReadError (Float × Cursor) :=
  let more := (c.rest.takeWhile Char.isDigit).length
  let c := c.advanceBy more
  match c.next? with
  | some '.' => readFraction negative digits more c
  | _ => readOptionalExponent negative digits more c

def readWhole (negative : Bool) : Nat → Nat → Cursor → Except ReadError (Json × Cursor)
  | 0, n, c => readAfterWhole negative n c
  | fuel + 1, n, c =>
    match isDigit? c with
    | none => readAfterWhole negative n c
    | some d =>
      if wholeLimit ≤ n * 10 + d then (readLong negative n c).map fun (x, c) => (.real x, c)
      else readWhole negative fuel (n * 10 + d) c.advance

def readNumber (negative : Bool) (c : Cursor) : Except ReadError (Json × Cursor) :=
  match c.next? with
  | none => c.failure .endInValue
  | some '0' =>
    let c := c.advance
    if (isDigit? c).isSome then c.failureAtNext .invalidNumber else readAfterWhole negative 0 c
  | some _ =>
    if (isDigit? c).isSome then readWhole negative c.rest.length 0 c
    else c.failureAtNext .invalidNumber

/-! ## Strings -/

/-- The place so many bytes further on, also inside a character. -/
def Cursor.placeAfter : Nat → List Char → Cursor → Cursor
  | _, [], c => c
  | bytes, x :: text, c =>
    if x.utf8Size ≤ bytes then placeAfter (bytes - x.utf8Size) text c.advance
    else { c with column := c.column + bytes }

/-- Four hexadecimal digits. Digits are single bytes, so a character of more bytes is no digit, and
the four bytes are counted within the text that is left. -/
def readHex4 (c : Cursor) : Except ReadError (Nat × Cursor) :=
  match (c.rest.take 4).mapM (Digits.digit? 16) with
  | some [a, b, d, e] => .ok (Digits.ofDigits 16 [a, b, d, e], c.advanceBy 4)
  | _ =>
    let bytes := c.rest.foldr (fun x n => x.utf8Size + n) 0
    if bytes < 4 then (c.advanceBy c.rest.length).failure .endInString
    else (Cursor.placeAfter 4 c.rest c).failure .invalidEscape

def codePoint (n : Nat) : List Char := [Char.ofNat n]

/-- A `\u` escape behind its letter: a code point, or a pair of surrogates. -/
def readUnicodeEscape (c : Cursor) : Except ReadError (List Char × Cursor) := do
  let (n, c) ← readHex4 c
  if 0xDC00 ≤ n ∧ n ≤ 0xDFFF then c.failure .loneSurrogate
  else if n < 0xD800 ∨ 0xDBFF < n then .ok (codePoint n, c)
  else
    match c.next? with
    | none => c.failure .endInString
    | some '\\' =>
      let c := c.advance
      match c.next? with
      | none => c.failure .endInString
      | some 'u' =>
        let (low, c) ← readHex4 c.advance
        if low < 0xDC00 ∨ 0xDFFF < low then c.failure .loneSurrogate
        else .ok (codePoint (0x10000 + (n - 0xD800) * 0x400 + (low - 0xDC00)), c)
      | some _ => c.failureAtNext .unfinishedSurrogate
    | some _ => c.failureAtNext .unfinishedSurrogate

def readEscape (c : Cursor) : Except ReadError (List Char × Cursor) :=
  match c.next? with
  | none => c.failure .endInString
  | some '"' => .ok (['"'], c.advance)
  | some '\\' => .ok (['\\'], c.advance)
  | some '/' => .ok (['/'], c.advance)
  | some 'b' => .ok (codePoint 8, c.advance)
  | some 'f' => .ok (codePoint 12, c.advance)
  | some 'n' => .ok (['\n'], c.advance)
  | some 'r' => .ok (['\r'], c.advance)
  | some 't' => .ok (['\t'], c.advance)
  | some 'u' => readUnicodeEscape c.advance
  | some _ => c.failureAtNext .invalidEscape

/-- The characters of a string behind its opening quote; `done` holds those already read, the last
one first. -/
def readChars : Nat → List Char → Cursor → Except ReadError (String × Cursor)
  | 0, _, c => c.failure .endInString
  | fuel + 1, done, c =>
    match c.next? with
    | none => c.failure .endInString
    | some '"' => .ok (String.ofList done.reverse, c.advance)
    | some '\\' => do
      let (chars, c) ← readEscape c.advance
      readChars fuel (chars.reverse ++ done) c
    | some x =>
      if x.toNat < 32 then c.advance.failure .controlCharacter
      else readChars fuel (x :: done) c.advance

def readString (c : Cursor) : Except ReadError (String × Cursor) :=
  readChars (c.rest.length + 1) [] c

/-! ## Values -/

/-- Lists and objects may stand inside each other to this depth, exclusive. -/
def depthLimit : Nat := 128

/-- The place where an item begins, at this character or behind a comma. -/
def itemStart (first : Bool) (x : Char) (c : Cursor) : Except ReadError Cursor :=
  if first then .ok c
  else if x = ',' then
    let c := c.advance.skipSpace
    match c.next? with
    | none => c.failureAtNext .endInValue
    | some ']' => c.failureAtNext .trailingComma
    | some _ => .ok c
  else c.failureAtNext .expectedListEnd

/-- The place where the key of a member begins, at this character or behind a comma. -/
def keyStart (first : Bool) (x : Char) (c : Cursor) : Except ReadError Cursor :=
  if first then if x = '"' then .ok c else c.failureAtNext .keyNotString
  else if x = ',' then
    let c := c.advance.skipSpace
    match c.next? with
    | none => c.failureAtNext .endInValue
    | some '"' => .ok c
    | some '\x7d' => c.failureAtNext .trailingComma
    | some _ => c.failureAtNext .keyNotString
  else c.failureAtNext .expectedObjectEnd

mutual

def readValue : Nat → Nat → Cursor → Except ReadError (Json × Cursor)
  | 0, _, c => c.failure .endInValue
  | fuel + 1, depth, c =>
    let c := c.skipSpace
    match c.next? with
    | none => c.failureAtNext .endInValue
    | some 'n' => (readWord ['u', 'l', 'l'] c.advance).map fun c => (.null, c)
    | some 't' => (readWord ['r', 'u', 'e'] c.advance).map fun c => (.bool true, c)
    | some 'f' => (readWord ['a', 'l', 's', 'e'] c.advance).map fun c => (.bool false, c)
    | some '-' => readNumber true c.advance
    | some '"' => (readString c.advance).map fun (s, c) => (.string s, c)
    | some '[' =>
      if depth ≤ 1 then c.failureAtNext .tooDeep
      else readItems fuel (depth - 1) true [] c.advance
    | some '\x7b' =>
      if depth ≤ 1 then c.failureAtNext .tooDeep
      else readMembers fuel (depth - 1) true [] c.advance
    | some x => if x.isDigit then readNumber false c else c.failureAtNext .expectedValue

/-- The items of a list up to its end; `first` before any item has been read. -/
def readItems : Nat → Nat → Bool → List Json → Cursor → Except ReadError (Json × Cursor)
  | 0, _, _, _, c => c.failure .endInList
  | fuel + 1, depth, first, done, c =>
    let c := c.skipSpace
    match c.next? with
    | none => c.failureAtNext .endInList
    | some ']' => .ok (.array done.reverse, c.advance)
    | some x => do
      let c ← itemStart first x c
      let (item, c) ← readValue fuel depth c
      readItems fuel depth false (item :: done) c

/-- The members of an object up to its end; `first` before any member has been read. -/
def readMembers :
    Nat → Nat → Bool → List (String × Json) → Cursor → Except ReadError (Json × Cursor)
  | 0, _, _, _, c => c.failure .endInObject
  | fuel + 1, depth, first, done, c =>
    let c := c.skipSpace
    match c.next? with
    | none => c.failureAtNext .endInObject
    | some '\x7d' => .ok (.object done, c.advance)
    | some x => do
      let c ← keyStart first x c
      let (key, c) ← readString c.advance
      let c := c.skipSpace
      match c.next? with
      | none => c.failureAtNext .endInObject
      | some ':' => do
        let (value, c) ← readValue fuel depth c.advance
        readMembers fuel depth false (setMember key value done) c
      | some _ => c.failureAtNext .expectedColon

end

/-- Reads a text that holds one value and nothing else but white space. -/
def read (text : List Char) : Except ReadError Json := do
  let (value, c) ← readValue (2 * text.length + 2) depthLimit (Cursor.start text)
  let c := c.skipSpace
  if c.rest.isEmpty then .ok value else c.failureAtNext .trailingCharacters

end Logbook.Json
