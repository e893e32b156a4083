import Logbook.Number.Digits
import Logbook.Text.Utf8

/-!
# Identifiers of records

An identifier is ten bytes in hexadecimal: five of the millisecond of its making, three of the
machine, two of a counter. Each part wraps at its width. The text sorts by time first.
-/

namespace Logbook.Trace.Id

def width : Nat := 20

/-- The number of leading bytes of the text that hold the time. -/
def timeWidth : Nat := 10

/-- The lowest `count` bytes of a number, most significant byte first. -/
def lowBytes : Nat → Nat → List Nat
  | 0, _ => []
  | count + 1, n => n / Nat.pow 256 count % 256 :: lowBytes count n

def encode (millis machine count : Nat) : List Char :=
  (lowBytes 5 millis ++ lowBytes 3 machine ++ lowBytes 2 count).flatMap Digits.hexByte

/-- A text of the right length whose time would end inside a character. -/
inductive CutError where
  | insideCharacter
  deriving DecidableEq, Repr

/-- The time held by an identifier; none if the text has another length or its first half is no
hexadecimal numeral. -/
def timestampMillis (id : List Char) : Except CutError (Option Nat) :=
  if Utf8.byteLength id ≠ width then .ok none
  else match Utf8.cutAt? id timeWidth with
    | none => .error .insideCharacter
    | some time => .ok (Digits.read? 16 (Nat.pow 2 64) time)

/-- What identifiers are made from: the number of the machine, and a counter that wraps at 32 bits
and of which 24 bits are used. -/
structure Source where
  machine : Nat
  counter : UInt32

def Source.next (s : Source) (millis : Nat) : List Char × Source :=
  (encode millis s.machine (s.counter.toNat % Nat.pow 2 24), { s with counter := s.counter + 1 })

/-- The identifiers made at the given readings of the clock, in order. -/
def Source.take : Source → List Nat → List (List Char) × Source
  | s, [] => ([], s)
  | s, millis :: readings =>
    let (id, s) := s.next millis
    let (ids, s) := s.take readings
    (id :: ids, s)

end Logbook.Trace.Id
