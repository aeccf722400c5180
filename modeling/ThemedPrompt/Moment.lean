import ThemedPrompt.Text.Basic

/-! # Points in time

A date and a time of day, as clocks on the wall show them.
-/
namespace ThemedPrompt

structure Moment where
  year : Int
  month : Nat
  day : Nat
  hour : Nat
  minute : Nat
  second : Nat
deriving DecidableEq, Repr

namespace Moment

/-- Four digits at least; a year that needs more, or lies before year 0, has a sign. -/
def yearText (year : Int) : Text :=
  let digits := Text.padded 4 year.natAbs
  if year < 0 then '-' :: digits
  else if 9999 < year then '+' :: digits
  else digits

/-- Month, day and year with `/` between them. -/
def date (m : Moment) : Text :=
  Text.ofNat m.month ++ '/' :: Text.ofNat m.day ++ '/' :: yearText m.year

/-- The hour on a dial of twelve. -/
def dialHour (hour : Nat) : Nat := if hour % 12 = 0 then 12 else hour % 12

def time (m : Moment) : Text :=
  Text.ofNat (dialHour m.hour) ++ ':' :: Text.padded 2 m.minute ++ ':' :: Text.padded 2 m.second
    ++ if m.hour < 12 then " AM".toList else " PM".toList

end Moment
end ThemedPrompt
