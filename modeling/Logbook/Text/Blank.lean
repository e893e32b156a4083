/-!
# White space

The characters with the Unicode property `White_Space`, and trimming by them.
-/

namespace Logbook.Blank

/-- The ranges of `White_Space`, ends included. -/
def ranges : List (Nat × Nat) :=
  [(0x09, 0x0D), (0x20, 0x20), (0x85, 0x85), (0xA0, 0xA0), (0x1680, 0x1680), (0x2000, 0x200A),
    (0x2028, 0x2029), (0x202F, 0x202F), (0x205F, 0x205F), (0x3000, 0x3000)]

def isBlank (c : Char) : Bool :=
  ranges.any fun (low, high) => low ≤ c.toNat && c.toNat ≤ high

def trim (text : List Char) : List Char :=
  ((text.dropWhile isBlank).reverse.dropWhile isBlank).reverse

/-- A text of white space alone, the empty text included. -/
def isBlankText (text : String) : Bool := (trim text.toList).isEmpty

end Logbook.Blank
