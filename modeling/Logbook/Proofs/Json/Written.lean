import Logbook.Json.Reader

/-!
# JSON texts as they are written

The grammar of JSON texts with white space and spelling: a document is a derivation, and its text is
what stands in a file. Every well-formed text is the text of a document, and no other text is, so a
statement about all documents is one about all well-formed texts, of any depth.
-/

namespace Logbook.Json.Written

/-- White space, which may be empty. -/
structure Blank where
  chars : List Char
  isSpace : ∀ c ∈ chars, Cursor.isSpace c

/-! ## Strings -/

/-- The letters that stand behind a backslash for one character. -/
def escapeLetters : List Char := ['"', '\\', '/', 'b', 'f', 'n', 'r', 't']

/-- One character of a string as it is written: itself, or by a letter or a number behind a
backslash. -/
inductive Piece where
  | plain (c : Char) (allowed : 0x20 ≤ c.toNat ∧ c ≠ '"' ∧ c ≠ '\\')
  | escaped (c : Char) (allowed : c ∈ escapeLetters)
  | unicode (a b c d : Char) (hex : ∀ x ∈ [a, b, c, d], (Digits.digit? 16 x).isSome)

def Piece.text : Piece → List Char
  | .plain c _ => [c]
  | .escaped c _ => ['\\', c]
  | .unicode a b c d _ => ['\\', 'u', a, b, c, d]

/-- What stands between the quotes of a string. -/
abbrev Quoted := List Piece

namespace Quoted

/-- The characters between the quotes, escapes not decoded. -/
def raw (s : Quoted) : List Char := s.flatMap Piece.text

def text (s : Quoted) : List Char := '"' :: (s.raw ++ ['"'])

@[simp] theorem raw_nil : raw [] = [] := rfl

@[simp] theorem raw_cons (p : Piece) (s : Quoted) : raw (p :: s) = p.text ++ raw s := by
  simp [raw]

end Quoted

/-! ## Numbers -/

/-- Digits, at least one. -/
structure DigitRun where
  first : Char
  rest : List Char
  isDigit : ∀ c ∈ first :: rest, c.isDigit

def DigitRun.text (d : DigitRun) : List Char := d.first :: d.rest

structure Exponent where
  letter : Char
  isLetter : letter = 'e' ∨ letter = 'E'
  sign : Option Char
  isSign : ∀ c ∈ sign, c = '+' ∨ c = '-'
  digits : DigitRun

def Exponent.text (e : Exponent) : List Char := e.letter :: (e.sign.toList ++ e.digits.text)

structure Numeral where
  negative : Bool
  whole : DigitRun
  noLeadingZero : whole.first = '0' → whole.rest = []
  fraction : Option DigitRun
  exponent : Option Exponent

def Numeral.text (n : Numeral) : List Char :=
  (if n.negative then ['-'] else []) ++ n.whole.text ++
  (n.fraction.elim [] fun d => '.' :: d.text) ++ n.exponent.elim [] Exponent.text

/-! ## Values and documents -/

mutual

inductive Value where
  | null
  | bool (value : Bool)
  | number (n : Numeral)
  | string (s : Quoted)
  | emptyArray (gap : Blank)
  | array (items : Items)
  | emptyObject (gap : Blank)
  | object (members : Members)

/-- The items of an array, at least one. -/
inductive Items where
  | last (before : Blank) (value : Value) (after : Blank)
  | cons (before : Blank) (value : Value) (after : Blank) (rest : Items)

/-- The members of an object, at least one; keys may come again. -/
inductive Members where
  | last (before : Blank) (key : Quoted) (beforeColon afterColon : Blank) (value : Value)
      (after : Blank)
  | cons (before : Blank) (key : Quoted) (beforeColon afterColon : Blank) (value : Value)
      (after : Blank) (rest : Members)

end

mutual

def Value.text : Value → List Char
  | .null => ['n', 'u', 'l', 'l']
  | .bool true => ['t', 'r', 'u', 'e']
  | .bool false => ['f', 'a', 'l', 's', 'e']
  | .number n => n.text
  | .string s => s.text
  | .emptyArray gap => '[' :: (gap.chars ++ [']'])
  | .array items => '[' :: (items.text ++ [']'])
  | .emptyObject gap => '\x7b' :: (gap.chars ++ ['\x7d'])
  | .object members => '\x7b' :: (members.text ++ ['\x7d'])

def Items.text : Items → List Char
  | .last before value after => before.chars ++ (value.text ++ after.chars)
  | .cons before value after rest =>
    before.chars ++ (value.text ++ (after.chars ++ ',' :: rest.text))

def Members.text : Members → List Char
  | .last before key beforeColon afterColon value after =>
    before.chars ++ (key.text ++
      (beforeColon.chars ++ ':' :: (afterColon.chars ++ (value.text ++ after.chars))))
  | .cons before key beforeColon afterColon value after rest =>
    before.chars ++ (key.text ++
      (beforeColon.chars ++ ':' :: (afterColon.chars ++
        (value.text ++ (after.chars ++ ',' :: rest.text)))))

end

/-- A whole text: one value among white space. -/
structure Document where
  before : Blank
  value : Value
  after : Blank

def Document.text (d : Document) : List Char := d.before.chars ++ (d.value.text ++ d.after.chars)

end Logbook.Json.Written
