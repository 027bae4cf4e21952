import TapeReader.Clock.Calendar
import TapeReader.Clock.Zone

/-!
# A table of time zones

`TimeZones.table`: some zones, by the rules that they have followed for years. Before the first year
of its rules a zone has no daylight saving time.
-/

namespace TapeReader.TimeZones

/-- A change of clocks: on the first Sunday on or after a date, at an hour of standard time. -/
structure Change where
  month : Nat
  day : Nat
  hour : Nat

/-- The instant of a change in a year, in seconds. -/
def Change.instant (c : Change) (year : Int) (standard : Int) : Int :=
  Calendar.sundayFrom year c.month c.day * 86400 + c.hour * 3600 - standard

/-- What is known of a zone: the seconds ahead of universal time when clocks are not changed, and
the changes of a year, to daylight saving time and back. -/
structure Rules where
  standard : Int
  changes : Int → Option (Change × Change)

namespace Rules

/-- The changes of the United States, since 1967. -/
def american (year : Int) : Option (Change × Change) :=
  if 2007 ≤ year then some (⟨3, 8, 2⟩, ⟨11, 1, 1⟩)
  else if 1987 ≤ year then some (⟨4, 1, 2⟩, ⟨10, 25, 1⟩)
  else if year = 1975 then some (⟨2, 22, 2⟩, ⟨10, 25, 1⟩)
  else if year = 1974 then some (⟨1, 6, 2⟩, ⟨10, 25, 1⟩)
  else if 1967 ≤ year then some (⟨4, 24, 2⟩, ⟨10, 25, 1⟩)
  else none

/-- The changes of the United Kingdom, since 1996. -/
def british (year : Int) : Option (Change × Change) :=
  if 1996 ≤ year then some (⟨3, 25, 1⟩, ⟨10, 25, 1⟩) else none

/-- The changes of New South Wales, since 2001. -/
def australian (year : Int) : Option (Change × Change) :=
  if 2008 ≤ year then some (⟨10, 1, 2⟩, ⟨4, 1, 2⟩)
  else if year = 2006 then some (⟨10, 25, 2⟩, ⟨4, 1, 2⟩)
  else if 2001 ≤ year then some (⟨10, 25, 2⟩, ⟨3, 25, 2⟩)
  else none

/-- Whether clocks are an hour ahead at an instant. In the south the season goes over the new
year. -/
def isDaylight (z : Rules) (second : Int) : Bool :=
  let year := Calendar.yearOf (second / 86400)
  match z.changes year with
  | none => false
  | some (forth, back) =>
    let forth := forth.instant year z.standard
    let back := back.instant year z.standard
    if forth < back then forth ≤ second && second < back
    else second < back || forth ≤ second

/-- Seconds ahead of universal time at an instant, in seconds. -/
def offset (z : Rules) (second : Int) : Int :=
  z.standard + if z.isDaylight second then 3600 else 0

/-- The zones of the table, by their names. -/
def all : List (String × Rules) :=
  [("UTC", ⟨0, fun _ => none⟩), ("Etc/UTC", ⟨0, fun _ => none⟩), ("GMT", ⟨0, fun _ => none⟩),
    ("EST", ⟨-5 * 3600, fun _ => none⟩), ("Etc/GMT+5", ⟨-5 * 3600, fun _ => none⟩),
    ("US/Eastern", ⟨-5 * 3600, american⟩), ("America/New_York", ⟨-5 * 3600, american⟩),
    ("America/Chicago", ⟨-6 * 3600, american⟩), ("America/Los_Angeles", ⟨-8 * 3600, american⟩),
    ("Europe/London", ⟨0, british⟩), ("Asia/Tokyo", ⟨9 * 3600, fun _ => none⟩),
    ("Asia/Kolkata", ⟨5 * 3600 + 1800, fun _ => none⟩),
    ("Australia/Sydney", ⟨10 * 3600, australian⟩)]

end Rules

/-- The zones of the table. -/
@[reducible]
def table : TimeZones where
  knows name := (Rules.all.lookup name).isSome
  offset name second := (Rules.all.lookup name).elim 0 (·.offset second)
  knows_newYork := by decide +kernel

end TapeReader.TimeZones
