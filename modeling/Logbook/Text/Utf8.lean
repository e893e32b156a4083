/-!
# Positions counted in bytes

A text is a list of characters; some rules of this library count the bytes of its UTF-8 form.
`byteLength` measures a text, and `cutAt?` cuts it at a byte offset, which is possible exactly at
the boundary of two characters.
-/

namespace Logbook.Utf8

/-- The number of bytes of a text in UTF-8. -/
def byteLength : List Char → Nat
  | [] => 0
  | c :: text => c.utf8Size + byteLength text

/-- The characters that fill the first `n` bytes; `none` if the offset `n` is inside a character or
past the end. -/
def cutAt? : List Char → Nat → Option (List Char)
  | _, 0 => some []
  | [], _ + 1 => none
  | c :: text, n + 1 =>
    if c.utf8Size ≤ n + 1 then (cutAt? text (n + 1 - c.utf8Size)).map (c :: ·) else none

end Logbook.Utf8
