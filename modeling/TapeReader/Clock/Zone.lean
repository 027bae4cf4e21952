import TapeReader.Clock.TimeOfDay

/-!
# Time zones

* `TimeZones`: what is known of the time zones of the tz database.
* `Zone`: a zone that is known, by its name.
* `Zone.localTime`: the local time of day.
-/

namespace TapeReader

/-- The time zones of the tz database, by their names. -/
class TimeZones where
  /-- Whether a zone goes by the name, capitals and all. -/
  knows : String → Bool
  /-- The seconds by which the clocks of a zone are ahead of universal time, at an instant in
  seconds. -/
  offset : String → Int → Int
  /-- The zone of the exchange. -/
  knows_newYork : knows "America/New_York" = true

/-- A zone that is known. -/
structure Zone [TimeZones] where
  name : String
  known : TimeZones.knows name = true
deriving DecidableEq, Repr

namespace Zone

variable [TimeZones]

def newYork : Zone := ⟨"America/New_York", TimeZones.knows_newYork⟩

/-- The zone of a name. -/
def ofName? (s : String) : Option Zone := if h : TimeZones.knows s = true then some ⟨s, h⟩ else none

/-- The local time of day at an instant, in milliseconds. -/
def localTime (z : Zone) (instant : Int) : TimeOfDay :=
  .ofMillis (instant + TimeZones.offset z.name (instant / 1000) * 1000)

end Zone

end TapeReader
