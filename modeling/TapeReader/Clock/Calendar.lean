/-!
# Calendar

Days of the Gregorian calendar, counted from the epoch.

* `dayNumber`, `yearOf`: from a date to its day, and from a day to its year.
* `sundayFrom`: the first Sunday on or after a date.
-/

namespace TapeReader.Calendar

/-- The day of a date. Years begin in March here, so that a leap day is the last day of one. -/
def dayNumber (year : Int) (month day : Nat) : Int :=
  let y := if month ≤ 2 then year - 1 else year
  let m : Int := if month ≤ 2 then month + 9 else month - 3
  365 * y + y / 4 - y / 100 + y / 400 + (153 * m + 2) / 5 + day - 1 - 719468

/-- The year a day falls in: an estimate by the mean length of a year, set right by one. -/
def yearOf (day : Int) : Int :=
  let guess := 1970 + day * 400 / 146097
  if day < dayNumber guess 1 1 then guess - 1
  else if dayNumber (guess + 1) 1 1 ≤ day then guess + 1
  else guess

/-- The day of the week, with Sunday as zero. -/
def weekday (day : Int) : Int := (day + 4) % 7

/-- The first Sunday on or after a date. -/
def sundayFrom (year : Int) (month day : Nat) : Int :=
  let d := dayNumber year month day
  d + (7 - weekday d) % 7

end TapeReader.Calendar
