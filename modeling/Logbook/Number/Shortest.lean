/-!
# The fewest digits that read back

A finite double is `m · 2 ^ q` exactly. The reals that round to it form an interval around it, whose
ends belong to it exactly when `m` is even. `shortest` looks for the coarsest decimal grid with a
point in that interval; of the two grid points next to the value it takes the nearer one, and where
both are equally near the one that the format asks for. All arithmetic is on natural numbers and
exact.
-/

namespace Logbook.Shortest

/-- A finite double without its sign: `mantissa · 2 ^ exponent`. At a power of two the gap to the
next smaller double is half the gap above. -/
structure Magnitude where
  mantissa : Nat
  exponent : Int
  narrowBelow : Bool

/-- What the 64 bits of a double stand for. -/
inductive Reading where
  | finite (negative : Bool) (magnitude : Magnitude)
  | infinite (negative : Bool)
  | notANumber

/-- Takes the bits of a double apart: sign, eleven bits of exponent, 52 bits of fraction. -/
def ofBits (bits : Nat) : Reading :=
  let negative := bits / Nat.pow 2 63 % 2 = 1
  let biased : Nat := bits / Nat.pow 2 52 % Nat.pow 2 11
  let fraction : Nat := bits % Nat.pow 2 52
  if biased = 2047 then
    if fraction = 0 then .infinite negative else .notANumber
  else if biased = 0 then .finite negative ⟨fraction, -1074, false⟩
  else .finite negative ⟨Nat.pow 2 52 + fraction, (biased : Int) - 1075, fraction = 0 ∧ biased ≠ 1⟩

/-- Decimal digits, the first one before the point, times a power of ten. -/
structure Decimal where
  digits : List Nat
  exponent : Int

structure Ratio where
  num : Nat
  den : Nat

/-- `n · 2 ^ two / 10 ^ ten` as a quotient. -/
def Ratio.scaled (n : Nat) (two ten : Int) : Ratio :=
  ⟨n * Nat.pow 2 two.toNat * Nat.pow 10 (-ten).toNat, Nat.pow 2 (-two).toNat * Nat.pow 10 ten.toNat⟩

/-- The digits of a natural number, most significant digit first. -/
def digitsOf (n : Nat) : List Nat := (Nat.toDigits 10 n).map fun c => c.toNat - '0'.toNat

/-- The power of ten at the first digit. No positive double is below `10 ^ -400`, so the digits of
its multiple by `10 ^ 400` tell. -/
def leadingExponent (m : Magnitude) : Int :=
  let r := Ratio.scaled m.mantissa m.exponent (-400)
  ((digitsOf (r.num / r.den)).length : Int) - 401

/-- Which of two equally near grid points is taken. -/
inductive Tie where
  | toEven
  | upward
  deriving DecidableEq, Repr

/-- Whether the grid point `point · 10 ^ ten` is one of the reals that round to the value. -/
def Magnitude.covers (m : Magnitude) (ten : Int) (point : Nat) : Bool :=
  let two := m.exponent - 2
  let low := Ratio.scaled (4 * m.mantissa - (if m.narrowBelow then 1 else 2)) two ten
  let high := Ratio.scaled (4 * m.mantissa + 2) two ten
  if m.mantissa % 2 = 0 then low.num ≤ point * low.den ∧ point * high.den ≤ high.num
  else low.num < point * low.den ∧ point * high.den < high.num

/-- The grid point of `10 ^ ten` next to the value that rounds to it, if there is one. -/
def gridPoint? (tie : Tie) (m : Magnitude) (ten : Int) : Option Nat :=
  let value := Ratio.scaled (4 * m.mantissa) (m.exponent - 2) ten
  let below := value.num / value.den
  let above := below + 1
  let toBelow := value.num - below * value.den
  let toAbove := above * value.den - value.num
  match m.covers ten below, m.covers ten above with
  | true, true =>
    let takesBelow := tie = .toEven ∧ below % 2 = 0
    if toBelow < toAbove ∨ (toBelow = toAbove ∧ takesBelow) then some below else some above
  | true, false => some below
  | false, true => some above
  | false, false => none

def trimZeros (digits : List Nat) : List Nat := (digits.reverse.dropWhile (· = 0)).reverse

/-- The shortest decimal that reads back as the value; zero has the one digit zero. -/
def shortest (tie : Tie) (m : Magnitude) : Decimal :=
  if m.mantissa = 0 then ⟨[0], 0⟩
  else
    let lead := leadingExponent m
    let grid (count : Nat) : Option Decimal :=
      let ten := lead - count
      (gridPoint? tie m ten).map fun point =>
        let digits := digitsOf point
        ⟨trimZeros digits, ten + (digits.length - 1 : Nat)⟩
    ((List.range 18).findSome? grid).getD ⟨[0], 0⟩

end Logbook.Shortest
