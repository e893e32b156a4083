import Logbook.Number.Digits
import Logbook.Number.Shortest

/-!
# Decimal texts of doubles

Writing a double with the fewest digits in one of the layouts of this library, and reading a double
from decimal text, correctly rounded.
-/

namespace Logbook.Decimal

/-- How a double is laid out: the decimal exponents that are written positionally, whether a whole
number written so carries `.0`, and which of two equally near decimals is written. Outside the range
the exponent is written with its sign. -/
structure Layout where
  positional : Int → Bool
  pointZero : Bool
  tie : Shortest.Tie

/-- Stats in records: positional from `10 ^ -5` up to below `10 ^ 16`; a tie goes to the even
digit. -/
def stat : Layout := ⟨fun e => -5 ≤ e ∧ e < 16, true, .toEven⟩

/-- Samples of metrics: always positional, whole numbers without a point; a tie goes up. -/
def sample : Layout := ⟨fun _ => true, false, .upward⟩

/-- Numbers in messages: always positional, whole numbers with `.0`; a tie goes up. -/
def message : Layout := ⟨fun _ => true, true, .upward⟩

def digitChars (digits : List Nat) : List Char := digits.map fun d => Char.ofNat ('0'.toNat + d)

/-- Positional text of digits of which the first has the weight `10 ^ exponent`. -/
def positionalText (pointZero : Bool) (digits : List Nat) (exponent : Int) : List Char :=
  if exponent < 0 then
    ['0', '.'] ++ List.replicate ((-exponent).toNat - 1) '0' ++ digitChars digits
  else
    let before := exponent.toNat + 1
    let whole := digitChars (digits.take before) ++ List.replicate (before - digits.length) '0'
    match digits.drop before with
    | [] => if pointZero then whole ++ ['.', '0'] else whole
    | after => whole ++ '.' :: digitChars after

/-- Scientific text: one digit before the point, no point without further digits. -/
def scientificText (digits : List Nat) (exponent : Int) : List Char :=
  let mark := if exponent < 0 then ['e', '-'] else ['e', '+']
  let power := mark ++ Nat.toDigits 10 exponent.natAbs
  match digitChars digits with
  | [] => power
  | [d] => d :: power
  | d :: rest => d :: '.' :: rest ++ power

def Layout.text (layout : Layout) (d : Shortest.Decimal) : List Char :=
  if d.digits = [0] ∨ layout.positional d.exponent then
    positionalText layout.pointZero d.digits d.exponent
  else scientificText d.digits d.exponent

def render (layout : Layout) (x : Float) : List Char :=
  match Shortest.ofBits x.toBits.toNat with
  | .notANumber => ['N', 'a', 'N']
  | .infinite negative => (if negative then ['-'] else []) ++ ['i', 'n', 'f']
  | .finite negative m =>
    (if negative then ['-'] else []) ++ layout.text (Shortest.shortest layout.tie m)

def isFinite (x : Float) : Bool :=
  match Shortest.ofBits x.toBits.toNat with
  | .finite .. => true
  | _ => false

/-- `digits · 10 ^ exponent` as a double. Beyond the range of doubles the result is known without
computing the power. -/
def toDouble (digits : Nat) (exponent : Int) : Float :=
  let size := ((Nat.toDigits 10 digits).length : Int) + exponent
  if digits = 0 ∨ size < -400 then 0.0
  else if size > 400 then 1.0 / 0.0
  else Float.ofScientific digits (exponent < 0) exponent.natAbs

def spanDigits (text : List Char) : List Nat × List Char :=
  ((text.takeWhile Char.isDigit).map fun c => c.toNat - '0'.toNat, text.dropWhile Char.isDigit)

def exponent? : List Char → Option Int
  | [] => some 0
  | c :: text =>
    if c = 'e' ∨ c = 'E' then
      let (negative, digits) := match text with
        | '-' :: digits => (true, digits)
        | '+' :: digits => (false, digits)
        | digits => (false, digits)
      if digits.all Char.isDigit then
        (Digits.unsigned? 10 digits).map fun n => if negative then -(n : Int) else n
      else none
    else none

/-- The value of an unsigned decimal numeral: digits around an optional point, at least one digit,
an optional exponent. -/
def magnitude? (text : List Char) : Option Float :=
  let (whole, rest) := spanDigits text
  let (fraction, rest) := match rest with
    | '.' :: rest => spanDigits rest
    | rest => ([], rest)
  if whole.isEmpty ∧ fraction.isEmpty then none
  else (exponent? rest).map fun e =>
    toDouble (Digits.ofDigits 10 (whole ++ fraction)) (e - fraction.length)

/-- A double from decimal text, an optional sign first; also `inf`, `infinity` and `nan` in any
case. -/
def read? (text : List Char) : Option Float :=
  let (negative, text) := match text with
    | '-' :: text => (true, text)
    | '+' :: text => (false, text)
    | text => (false, text)
  let named := String.ofList (text.map Char.toLower)
  let value :=
    if named = "inf" ∨ named = "infinity" then some (1.0 / 0.0)
    else if named = "nan" then some (0.0 / 0.0)
    else magnitude? text
  value.map fun x => if negative then -x else x

end Logbook.Decimal
