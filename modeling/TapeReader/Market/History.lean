import TapeReader.Market.Bar

/-!
# Histories

The bars of one ticker for windows of one length, newest first.

* `merge`: a tick folded into the newest bar.
* `open?`: a tick that opens the next bar.
* `add`: the one or the other. The answer says whether a window closed; a refused tick gives no
  new history.
-/

namespace TapeReader

/-- Why a tick was not added. -/
inductive Refusal where
  | violation (v : Violation)
  /-- Windows of length zero have no start to align to. -/
  | zeroWindow
deriving DecidableEq, Repr

/-- The bars of one ticker, newest first. -/
abbrev History := List Bar

namespace History

/-- The newest bar with a tick of its window folded in, and whether it is closed now. -/
def merge (w : Window) (front : Bar) (t : Tick) : Except Violation (Bar × Bool) :=
  if t.start < front.start then .error (.predates t.ticker t.start front.start)
  else if w.millis < wrap (t.stop - front.start) then
    .error (.overrunsOpen t.ticker t.stop front.start (wrap (front.start + w.millis)))
  else do
    let bar ← front.absorb t
    let closed := bar.isClosed w.millis
    .ok ({ bar with closureReported := bar.closureReported || closed }, closed)

/-- The bar that a tick opens, starting where its window does. A bar that is closed at once
counts as reported. -/
def openBar (w : Window) (t : Tick) : Except Refusal Bar :=
  if w.millis = 0 then .error .zeroWindow
  else
    let bar := { Bar.ofTick t with start := w.floor t.start }
    if w.millis < bar.span then
      .error (.violation (.overrunsFresh t.ticker t.start t.stop w.secs bar.start))
    else .ok { bar with closureReported := bar.isClosed w.millis }

/-- Whether the newest bar's closure is still to be reported. -/
def pending : History → Bool
  | [] => false
  | front :: _ => !front.closureReported

/-- The history with the newest bar's closure reported. -/
def settle : History → History
  | [] => []
  | front :: older => { front with closureReported := true } :: older

/-- A new bar in front, of a history bounded in length. The answer is whether it is closed or
its predecessor's closure had not been reported. -/
def push (bound : Nat) (h : History) (bar : Bar) : History × Bool :=
  ((bar :: settle h).take bound, bar.closureReported || pending h)

/-- **Adds a tick.** One that starts less than a window after the newest bar does is merged into
it, any other opens a bar. -/
def add (w : Window) (bound : Nat) (h : History) (t : Tick) : Except Refusal (History × Bool) :=
  match t.validate with
  | .error v => .error (.violation v)
  | .ok () =>
    match h with
    | front :: older =>
      if wrap (t.start - front.start) < w.millis then
        match merge w front t with
        | .error v => .error (.violation v)
        | .ok (bar, closed) => .ok (bar :: older, closed)
      else (openBar w t).map (push bound h)
    | [] => (openBar w t).map (push bound h)

end History

end TapeReader
