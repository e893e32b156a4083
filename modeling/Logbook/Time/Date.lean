import Logbook.Number.Digits

/-!
# Dates

The text of a moment in universal time, to the millisecond, from the milliseconds since the start
of 1970 in the Gregorian calendar.
-/

namespace Logbook.Date

structure Civil where
  year : Nat
  month : Nat
  day : Nat
  deriving DecidableEq, Repr

/-- The date a number of days after the first day of 1970. Days are counted from the first of March
of the year 0, in cycles of 400 years, so that a leap day ends its year. -/
def ofDays (days : Nat) : Civil :=
  let days := days + 719468
  let cycle := days / 146097
  let inCycle := days % 146097
  let year := (inCycle - inCycle / 1460 + inCycle / 36524 - inCycle / 146096) / 365
  let inYear := inCycle - (365 * year + year / 4 - year / 100)
  let month := (5 * inYear + 2) / 153
  let day := inYear - (153 * month + 2) / 5 + 1
  if month < 10 then ⟨400 * cycle + year, month + 3, day⟩
  else ⟨400 * cycle + year + 1, month - 9, day⟩

/-- Date and time of day, for instance `2024-05-06T07:08:09.010Z`. -/
def text (millis : Nat) : String :=
  let date := ofDays (millis / 86400000)
  let time := millis % 86400000
  String.ofList <|
    Digits.padded 4 date.year ++ '-' :: Digits.padded 2 date.month ++
    '-' :: Digits.padded 2 date.day ++ 'T' :: Digits.padded 2 (time / 3600000) ++
    ':' :: Digits.padded 2 (time / 60000 % 60) ++ ':' :: Digits.padded 2 (time / 1000 % 60) ++
    '.' :: Digits.padded 3 (time % 1000) ++ ['Z']

/-- Whether a text has the form of such a text; the digits may be any. -/
def hasForm (text : String) : Bool :=
  text.toList.map (fun c => if c.isDigit then '0' else c) = "0000-00-00T00:00:00.000Z".toList

end Logbook.Date
