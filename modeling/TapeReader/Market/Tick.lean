import TapeReader.Decimal.Json
import TapeReader.Market.Violation

/-!
# Ticks

One record of the feed: what was traded of one ticker between two instants.

* `Tick.validate`: a record that bars can absorb is an aggregate of a span that is not empty.
* `Tick.ofJson?`, `Tick.toJson`: the record on the wire.
-/

namespace TapeReader

/-- One record. Instants are milliseconds since the epoch; the span includes `start` and
excludes `stop`. -/
structure Tick where
  event : String
  ticker : String
  /-- Traded in the span. -/
  volume : Int
  /-- Traded since the day began. -/
  accumulatedVolume : Int
  dayOpen : Decimal
  vwap : Decimal
  openPrice : Decimal
  closePrice : Decimal
  high : Decimal
  low : Decimal
  start : Int
  stop : Int
deriving DecidableEq, Repr

namespace Tick

/-- The event of an aggregate record. -/
def aggregateEvent : String := "A"

def isAggregate (t : Tick) : Bool := t.event == aggregateEvent

/-- Refuses a record that no bar can absorb. -/
def validate (t : Tick) : Except Violation Unit :=
  if t.event ≠ aggregateEvent then .error (.eventKind t.event t.ticker)
  else if t.stop ≤ t.start then .error (.emptySpan t.ticker t.start t.stop)
  else .ok ()

/-- The names of the fields on the wire, in order. -/
def fieldNames : List String :=
  ["ev", "sym", "v", "av", "op", "vw", "o", "c", "h", "l", "s", "e"]

/-- A record with every field; others are ignored. -/
def ofJson? (j : Json) : Option Tick :=
  match j.record? fieldNames with
  | some [ev, sym, v, av, op, vw, o, c, h, l, s, e] => do
    some {
      event := ← (← ev).string?
      ticker := ← (← sym).string?
      volume := ← (← v).int64?
      accumulatedVolume := ← (← av).int64?
      dayOpen := ← Decimal.ofJson? (← op)
      vwap := ← Decimal.ofJson? (← vw)
      openPrice := ← Decimal.ofJson? (← o)
      closePrice := ← Decimal.ofJson? (← c)
      high := ← Decimal.ofJson? (← h)
      low := ← Decimal.ofJson? (← l)
      start := ← (← s).int64?
      stop := ← (← e).int64? }
  | _ => none

def toJson (t : Tick) : Json :=
  .object [("ev", .string t.event), ("sym", .string t.ticker), ("v", .int t.volume),
    ("av", .int t.accumulatedVolume), ("op", t.dayOpen.toJson), ("vw", t.vwap.toJson),
    ("o", t.openPrice.toJson), ("c", t.closePrice.toJson), ("h", t.high.toJson),
    ("l", t.low.toJson), ("s", .int t.start), ("e", .int t.stop)]

end Tick

end TapeReader
