/-!
# Reading damaged UTF-8

Bytes as text, also where they are no UTF-8: each longest beginning of a character that is not
finished, and each byte that begins none, stands as one replacement character.
-/

namespace Logbook.Lossy

def replacement : Char := Char.ofNat 0xFFFD

/-- What the first byte of a character tells: how many more bytes there are, its own bits, and the
range of the second byte. -/
def lead? (b : Nat) : Option (Nat × Nat × Nat × Nat) :=
  if 0xC2 ≤ b ∧ b ≤ 0xDF then some (1, b - 0xC0, 0x80, 0xBF)
  else if b = 0xE0 then some (2, 0, 0xA0, 0xBF)
  else if b = 0xED then some (2, 13, 0x80, 0x9F)
  else if 0xE1 ≤ b ∧ b ≤ 0xEF then some (2, b - 0xE0, 0x80, 0xBF)
  else if b = 0xF0 then some (3, 0, 0x90, 0xBF)
  else if b = 0xF4 then some (3, 4, 0x80, 0x8F)
  else if 0xF1 ≤ b ∧ b ≤ 0xF3 then some (3, b - 0xF0, 0x80, 0xBF)
  else none

/-- A character on the way: how many bytes it lacks, its bits so far, and the range of the next
byte. -/
structure Unfinished where
  lacking : Nat
  bits : Nat
  low : Nat
  high : Nat

def open? (b : Nat) : List Char × Option Unfinished :=
  if b < 0x80 then ([Char.ofNat b], none)
  else match lead? b with
    | some (lacking, bits, low, high) => ([], some ⟨lacking, bits, low, high⟩)
    | none => ([replacement], none)

def feed (p : Option Unfinished) (b : Nat) : List Char × Option Unfinished :=
  match p with
  | none => open? b
  | some p =>
    if p.low ≤ b ∧ b ≤ p.high then
      let bits := p.bits * 64 + (b - 0x80)
      if p.lacking = 1 then ([Char.ofNat bits], none)
      else ([], some ⟨p.lacking - 1, bits, 0x80, 0xBF⟩)
    else
      let (chars, p) := open? b
      (replacement :: chars, p)

def decodeFrom : Option Unfinished → List Nat → List Char
  | none, [] => []
  | some _, [] => [replacement]
  | p, b :: bytes =>
    let (chars, p) := feed p b
    chars ++ decodeFrom p bytes

def decode (bytes : List UInt8) : String :=
  String.ofList (decodeFrom none (bytes.map UInt8.toNat))

end Logbook.Lossy
