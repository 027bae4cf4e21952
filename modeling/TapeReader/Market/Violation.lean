import TapeReader.Text.Digits

/-!
# Violations

What a tick, a bar or a store refuses, and the words for it.
-/

namespace TapeReader

/-- What a bar or a store refuses about a tick. -/
inductive Violation where
  /-- The record is of another kind. -/
  | eventKind (event ticker : String)
  /-- The span of the record is empty. -/
  | emptySpan (ticker : String) (start stop : Int)
  /-- The bar is of another ticker. -/
  | otherTicker (tick bar : String)
  /-- The record does not fit in the window it starts in. -/
  | overrunsFresh (ticker : String) (start stop windowSecs windowStart : Int)
  /-- The record starts before the newest window. -/
  | predates (ticker : String) (start windowStart : Int)
  /-- The record ends after the newest window. -/
  | overrunsOpen (ticker : String) (stop windowStart windowStop : Int)
deriving DecidableEq, Repr

namespace Violation

/-- The words for a violation. -/
def message : Violation → String
  | .eventKind event ticker => s!"expected event kind A, got {event} for {ticker}"
  | .emptySpan ticker start stop =>
    let start := Text.int start
    let stop := Text.int stop
    s!"tick for {ticker} ends at {stop} which is not after its start {start}"
  | .otherTicker tick bar => s!"cannot merge {tick} tick into {bar} bar"
  | .overrunsFresh ticker start stop windowSecs windowStart =>
    let start := Text.int start
    let stop := Text.int stop
    let secs := Text.int windowSecs
    let windowStart := Text.int windowStart
    s!"{ticker} tick [{start}, {stop}) overruns the {secs}s window starting at {windowStart}"
  | .predates ticker start windowStart =>
    let start := Text.int start
    let windowStart := Text.int windowStart
    s!"{ticker} tick starting at {start} predates the open window at {windowStart}"
  | .overrunsOpen ticker stop windowStart windowStop =>
    let stop := Text.int stop
    let windowStart := Text.int windowStart
    let windowStop := Text.int windowStop
    s!"{ticker} tick ending at {stop} overruns the window [{windowStart}, {windowStop})"

end Violation

end TapeReader
