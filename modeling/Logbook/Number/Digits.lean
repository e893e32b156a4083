/-!
# Unsigned numerals

Reading a numeral of a given radix: one optional plus sign, then digits, of which there is at least
one, and a value below a limit. Letters of either case stand for the digits from ten on.
-/

namespace Logbook.Digits

def value? (c : Char) : Option Nat :=
  if '0' ≤ c ∧ c ≤ '9' then some (c.toNat - '0'.toNat)
  else if 'a' ≤ c ∧ c ≤ 'z' then some (c.toNat - 'a'.toNat + 10)
  else if 'A' ≤ c ∧ c ≤ 'Z' then some (c.toNat - 'A'.toNat + 10)
  else none

def digit? (radix : Nat) (c : Char) : Option Nat :=
  (value? c).filter (· < radix)

/-- The number that a list of digits denotes, most significant digit first. -/
def ofDigits (radix : Nat) (digits : List Nat) : Nat :=
  digits.foldl (fun n d => n * radix + d) 0

def unsigned? (radix : Nat) (text : List Char) : Option Nat :=
  if text.isEmpty then none else (text.mapM (digit? radix)).map (ofDigits radix)

def dropPlus : List Char → List Char
  | '+' :: text => text
  | text => text

/-- A numeral with an optional plus sign and a value below `limit`. -/
def read? (radix limit : Nat) (text : List Char) : Option Nat :=
  (unsigned? radix (dropPlus text)).filter (· < limit)

def hexDigit (n : Nat) : Char :=
  if n < 10 then Char.ofNat ('0'.toNat + n) else Char.ofNat ('a'.toNat + (n - 10))

def hexByte (n : Nat) : List Char := [hexDigit (n / 16 % 16), hexDigit (n % 16)]

def padded (width n : Nat) : List Char :=
  let digits := Nat.toDigits 10 n
  List.replicate (width - digits.length) '0' ++ digits

end Logbook.Digits
