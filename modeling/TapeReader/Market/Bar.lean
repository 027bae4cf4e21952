import TapeReader.Market.Tick
import TapeReader.Word

/-!
# Bars

What was traded of one ticker in one window, as far as it has been absorbed.

* `Window.floor`: the start of the window an instant falls in.
* `Bar.absorb`: a tick of the same ticker folded into a bar.
* `Bar.toJson`, `Bar.ofJson?`: a bar written and read.
-/

namespace TapeReader

/-- Windows of one length, aligned to the epoch. -/
structure Window where
  secs : Int
deriving DecidableEq, Repr

namespace Window

/-- The length of a window in milliseconds, zero for some lengths that run over 64 bits. -/
def millis (w : Window) : Int := wrap (w.secs * 1000)

/-- The start of the window that an instant falls in, before the epoch too. -/
def floor (w : Window) (instant : Int) : Int := wrap (instant - instant % w.millis)

end Window

/-- One window of one ticker. -/
structure Bar where
  ticker : String
  /-- Traded in the window. -/
  volume : Int
  /-- Traded in the day, as of the last absorbed tick. -/
  accumulatedVolume : Int
  dayOpen : Decimal
  vwap : Decimal
  openPrice : Decimal
  closePrice : Decimal
  high : Decimal
  low : Decimal
  start : Int
  /-- The edge of what has been absorbed. -/
  stop : Int
  /-- Whether someone has been told that the window closed. -/
  closureReported : Bool
deriving DecidableEq, Repr

namespace Bar

/-- The bar of one tick, over the span of the tick. -/
def ofTick (t : Tick) : Bar where
  ticker := t.ticker
  volume := t.volume
  accumulatedVolume := t.accumulatedVolume
  dayOpen := t.dayOpen
  vwap := t.vwap
  openPrice := t.openPrice
  closePrice := t.closePrice
  high := t.high
  low := t.low
  start := t.start
  stop := t.stop
  closureReported := false

/-- The bar with a tick folded in: volume adds up, high and low widen, the day's volume, the
vwap, the close and the edge are the tick's. -/
def fold (b : Bar) (t : Tick) : Bar :=
  { b with
    volume := wrap (b.volume + t.volume)
    accumulatedVolume := t.accumulatedVolume
    vwap := t.vwap
    closePrice := t.closePrice
    high := b.high.max t.high
    low := b.low.min t.low
    stop := t.stop }

/-- Folds in a tick of the same ticker, and refuses any other. -/
def absorb (b : Bar) (t : Tick) : Except Violation Bar :=
  if b.ticker = t.ticker then .ok (b.fold t) else .error (.otherTicker t.ticker b.ticker)

/-- The length of what has been absorbed. -/
def span (b : Bar) : Int := wrap (b.stop - b.start)

/-- A bar is closed when it spans exactly one window. -/
def isClosed (b : Bar) (windowMillis : Int) : Bool := b.span == windowMillis

/-- The first and the last instant that the calendar reaches, in milliseconds. -/
def firstInstant : Int := -8334601228800000

def lastInstant : Int := 8210266876799999

/-- The edge as an instant of the calendar. -/
def endTime? (b : Bar) : Option Int :=
  if firstInstant ≤ b.stop ∧ b.stop ≤ lastInstant then some b.stop else none

/-- Equality of what bars show: decimals by value, the mark of a reported closure left out. -/
def same (a b : Bar) : Bool :=
  a.ticker == b.ticker && a.volume == b.volume && a.accumulatedVolume == b.accumulatedVolume
    && a.dayOpen.sameValue b.dayOpen && a.vwap.sameValue b.vwap
    && a.openPrice.sameValue b.openPrice && a.closePrice.sameValue b.closePrice
    && a.high.sameValue b.high && a.low.sameValue b.low
    && a.start == b.start && a.stop == b.stop

/-- The names of the fields in JSON, in order. -/
def fieldNames : List String :=
  ["ticker", "volume", "accumulated_volume", "day_open", "vwap", "open", "close", "high", "low",
    "start", "end"]

def toJson (b : Bar) : Json :=
  .object [("ticker", .string b.ticker), ("volume", .int b.volume),
    ("accumulated_volume", .int b.accumulatedVolume), ("day_open", b.dayOpen.toJson),
    ("vwap", b.vwap.toJson), ("open", b.openPrice.toJson), ("close", b.closePrice.toJson),
    ("high", b.high.toJson), ("low", b.low.toJson), ("start", .int b.start), ("end", .int b.stop)]

/-- A bar with every field, its closure not reported. -/
def ofJson? (j : Json) : Option Bar :=
  match j.record? fieldNames with
  | some [ticker, volume, accumulated, dayOpen, vwap, opening, closing, high, low, start,
      stop] => do
    some {
      ticker := ← (← ticker).string?
      volume := ← (← volume).int64?
      accumulatedVolume := ← (← accumulated).int64?
      dayOpen := ← Decimal.ofJson? (← dayOpen)
      vwap := ← Decimal.ofJson? (← vwap)
      openPrice := ← Decimal.ofJson? (← opening)
      closePrice := ← Decimal.ofJson? (← closing)
      high := ← Decimal.ofJson? (← high)
      low := ← Decimal.ofJson? (← low)
      start := ← (← start).int64?
      stop := ← (← stop).int64?
      closureReported := false }
  | _ => none

end Bar

end TapeReader
