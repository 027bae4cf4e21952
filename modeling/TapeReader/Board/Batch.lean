import TapeReader.Json.Parser
import TapeReader.Market.Tick

/-!
# Batches

A message of the feed is an array of records.

* `records?`: the records of a message.
* `Tick.ofRecord?`: the tick that a record is, when bars can absorb it.
-/

namespace TapeReader

/-- The records of a message; none when it is no array. -/
def records? (raw : String) : Option (List Json) := (Json.ofText? raw).bind Json.array?

namespace Tick

/-- The tick of an aggregate record. Records of another event, records that do not decode and
records of an empty span have none. -/
def ofRecord? (record : Json) : Option Tick :=
  match (record.get? "ev").bind Json.string? with
  | some event =>
    if event = aggregateEvent then
      match ofJson? record with
      | some t => if t.validate.isOk then some t else none
      | none => none
    else none
  | none => none

end Tick

end TapeReader
