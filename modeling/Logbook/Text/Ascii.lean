/-!
# Letters without case

Field names compare without regard to the case of the letters A to Z; no other character folds.
-/

namespace Logbook.Ascii

/-- A letter A to Z in lower case, any other character as it is. -/
def fold (c : Char) : Char := c.toLower

def foldText (text : List Char) : List Char := text.map fold

def foldString (text : String) : String := String.ofList (foldText text.toList)

end Logbook.Ascii
