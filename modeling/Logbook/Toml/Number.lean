import Logbook.Number.Decimal
import Logbook.Toml.Text

/-!
# Numbers and dates in TOML

Whole numbers fit 64 bits with a sign; a number with a point or an exponent is a double and may not
exceed the largest one. Of dates and times only the form is checked, ranges and leap years included.
-/

namespace Logbook.Toml

inductive Scalar where
  | string (text : String)
  | integer (n : Int)
  | float (x : Float)
  | boolean (b : Bool)
  | dateTime

/-! ## Digits -/

/-- Digits of which each but the first may stand behind an underscore. -/
def moreDigits? (radix : Nat) : Nat → List Char → Option (List Nat × List Char)
  | 0, text => some ([], text)
  | fuel + 1, text =>
    match text with
    | [] => some ([], [])
    | c :: rest =>
      if c = '_' then
        match rest with
        | [] => none
        | d :: rest =>
          match Digits.digit? radix d with
          | none => none
          | some d => (moreDigits? radix fuel rest).map fun (ds, rest) => (d :: ds, rest)
      else
        match Digits.digit? radix c with
        | none => some ([], text)
        | some d => (moreDigits? radix fuel rest).map fun (ds, rest) => (d :: ds, rest)

/-- At least one digit. -/
def digits? (radix : Nat) : List Char → Option (List Nat × List Char)
  | [] => none
  | c :: text => do
    let d ← Digits.digit? radix c
    let (ds, rest) ← moreDigits? radix text.length text
    some (d :: ds, rest)

/-- The digits of a decimal number: zero alone, or no zero in front. -/
def decimal? (text : List Char) : Option (List Nat × List Char) :=
  match text with
  | '0' :: rest => some ([0], rest)
  | _ => digits? 10 text

/-- An optional sign; whether it is a minus. -/
def sign : List Char → Bool × List Char
  | '-' :: text => (true, text)
  | '+' :: text => (false, text)
  | text => (false, text)

/-! ## Numbers -/

def exponent? (text : List Char) : Option (Int × List Char) := do
  let c ← text.head?
  if c = 'e' ∨ c = 'E' then
    let (negative, rest) := sign text.tail
    let (ds, rest) ← digits? 10 rest
    let n : Int := Digits.ofDigits 10 ds
    some (if negative then -n else n, rest)
  else none

/-- A number with a point, an exponent or both; the flag tells whether the text has such a form, so
that a malformed one is not taken for a whole number. -/
def float? (text : List Char) : Bool × Option (Float × List Char) :=
  let (negative, rest) := sign text
  let finish (digits : List Nat) (e : Int) (rest : List Char) : Option (Float × List Char) :=
    let x := Decimal.toDouble (Digits.ofDigits 10 digits) e
    if !negative ∧ !Decimal.isFinite x then none else some (if negative then -x else x, rest)
  match decimal? rest with
  | none => (false, none)
  | some (whole, rest) =>
    match rest with
    | '.' :: behind =>
      match digits? 10 behind with
      | none => (true, none)
      | some (fraction, rest) =>
        let e :=
          if rest.head? = some 'e' ∨ rest.head? = some 'E' then exponent? rest else some (0, rest)
        (true, e.bind fun (e, rest) => finish (whole ++ fraction) (e - fraction.length) rest)
    | c :: _ =>
      if c = 'e' ∨ c = 'E' then (true, (exponent? rest).bind fun (e, rest) => finish whole e rest)
      else (false, none)
    | [] => (false, none)

/-- Infinity and what is not a number, by their names, with an optional sign. -/
def namedFloat? (text : List Char) : Option (Float × List Char) :=
  let (negative, rest) := sign text
  match rest with
  | 'i' :: 'n' :: 'f' :: rest => some (if negative then -1.0 / 0.0 else 1.0 / 0.0, rest)
  | 'n' :: 'a' :: 'n' :: rest => some (0.0 / 0.0, rest)
  | _ => none

def fits? (n : Int) : Option Int :=
  if -(Nat.pow 2 63 : Int) ≤ n ∧ n < Nat.pow 2 63 then some n else none

def integer? (text : List Char) : Option (Int × List Char) :=
  let inRadix (radix : Nat) (rest : List Char) : Option (Int × List Char) := do
    let (ds, rest) ← digits? radix rest
    let n ← fits? (Digits.ofDigits radix ds)
    some (n, rest)
  match text with
  | '0' :: 'x' :: rest => inRadix 16 rest
  | '0' :: 'o' :: rest => inRadix 8 rest
  | '0' :: 'b' :: rest => inRadix 2 rest
  | _ => do
    let (negative, rest) := sign text
    let (ds, rest) ← decimal? rest
    let n : Int := Digits.ofDigits 10 ds
    let n ← fits? (if negative then -n else n)
    some (n, rest)

/-! ## Dates and times -/

/-- Exactly `width` decimal digits. -/
def fixed? (width : Nat) (text : List Char) : Option (Nat × List Char) :=
  let ds := text.take width
  if ds.length = width ∧ ds.all Char.isDigit then
    (Digits.unsigned? 10 ds).map fun n => (n, text.drop width)
  else none

def pair? (low high : Nat) (text : List Char) : Option (Nat × List Char) :=
  (fixed? 2 text).filter fun (n, _) => low ≤ n ∧ n ≤ high

def daysInMonth (year month : Nat) : Nat :=
  if month = 2 then
    if year % 4 = 0 ∧ (year % 100 ≠ 0 ∨ year % 400 = 0) then 29 else 28
  else if month = 4 ∨ month = 6 ∨ month = 9 ∨ month = 11 then 30
  else 31

/-- A date; `none` if there is none, an inner refusal if it is malformed. -/
def date? (text : List Char) : Option (Option (List Char)) :=
  match (fixed? 4 text).bind fun (year, rest) => (char? '-' rest).map fun rest => (year, rest) with
  | none => none
  | some (year, rest) => some do
    let (month, rest) ← pair? 1 12 rest
    let rest ← char? '-' rest
    let (_, rest) ← pair? 1 (daysInMonth year month) rest
    some rest

/-- A time of day; `none` if there is none, an inner refusal if it is malformed. -/
def time? (text : List Char) : Option (Option (List Char)) :=
  match (pair? 0 23 text).bind fun (_, rest) => char? ':' rest with
  | none => none
  | some rest => some do
    let (_, rest) ← pair? 0 59 rest
    let rest ← char? ':' rest
    let (_, rest) ← pair? 0 60 rest
    match rest with
    | '.' :: fraction =>
      if fraction.head?.any Char.isDigit then some (fraction.dropWhile Char.isDigit)
      else some rest
    | _ => some rest

def offset? (text : List Char) : Option (List Char) :=
  match text with
  | 'Z' :: rest | 'z' :: rest => some rest
  | '+' :: rest | '-' :: rest => do
    let (_, rest) ← pair? 0 23 rest
    let rest ← char? ':' rest
    let (_, rest) ← pair? 0 59 rest
    some rest
  | _ => some text

/-- A date, a time, or both; `none` if there is none, an inner refusal if it is malformed. -/
def dateTime? (text : List Char) : Option (Option (List Char)) :=
  match date? text with
  | some none => some none
  | some (some rest) =>
    match rest with
    | c :: behind =>
      if c = 'T' ∨ c = 't' ∨ c = ' ' then
        match time? behind with
        | none => some (some rest)
        | some none => some none
        | some (some rest) => some (offset? rest)
      else some (some rest)
    | [] => some (some [])
  | none => time? text

def numeric? (text : List Char) : Option (Scalar × List Char) :=
  match dateTime? text with
  | some r => r.map fun rest => (.dateTime, rest)
  | none =>
    match float? text with
    | (true, r) => r.map fun (x, rest) => (.float x, rest)
    | (false, _) =>
      match namedFloat? text with
      | some (x, rest) => some (.float x, rest)
      | none => (integer? text).map fun (n, rest) => (.integer n, rest)

end Logbook.Toml
