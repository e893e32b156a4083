import Logbook.Trace.Id

/-!
# Surveys of identifiers

What can be told of identifiers that several workers took from one source.
-/

namespace Logbook.Trace.Id

/-- Whether a character is a hexadecimal digit in lower case. -/
def isLowerHex (c : Char) : Bool := c.isDigit ∨ ('a' ≤ c ∧ c ≤ 'f')

/-- How many different texts there are in a sorted list. -/
def countDistinct : List String → Nat
  | [] => 0
  | [_] => 1
  | a :: b :: rest => (if a = b then 0 else 1) + countDistinct (b :: rest)

structure Census where
  count : Nat
  unique : Nat
  lowerHex : Bool
  timesCurrent : Bool
  sameMachine : Bool
  /-- Whether the counter rises by one from each identifier to the next; told of one worker only. -/
  consecutive : Option Bool

def counterOf (id : List Char) : Nat := (Digits.read? 16 (Nat.pow 2 16) (id.drop 16)).getD 0

def isConsecutive : List Nat → Bool
  | a :: b :: rest => (a + 1) % Nat.pow 2 16 = b && isConsecutive (b :: rest)
  | _ => true

/-- Surveys identifiers made at the given readings of the clock. -/
def census (readings : List Nat) (workers : Nat) (ids : List (List Char)) : Census where
  count := ids.length
  unique := countDistinct ((ids.map String.ofList).mergeSort fun a b => !(b < a))
  lowerHex := ids.all fun id => id.length = width && id.all isLowerHex
  timesCurrent := (ids.zip readings).all fun (id, millis) =>
    id.take timeWidth = (lowBytes 5 millis).flatMap Digits.hexByte
  sameMachine := match ids with
    | [] => true
    | first :: rest =>
      rest.all fun id => (id.drop timeWidth).take 6 = (first.drop timeWidth).take 6
  consecutive := if workers = 1 then some (isConsecutive (ids.map counterOf)) else none

end Logbook.Trace.Id
