import TapeReader.Market.History

/-!
# Stores

The histories of every ticker for windows of one length.

* `add`: a tick added to the history of its ticker.
* `feed`: the same, where a refused tick leaves the store as it is.
-/

namespace TapeReader

structure Store where
  window : Window
  /-- How many bars a history keeps. -/
  bound : Nat
  /-- The histories by ticker, in order of arrival. -/
  histories : List (String × History) := []
deriving DecidableEq, Repr

namespace Store

/-- The history of a ticker, empty for one that is not known. -/
def history (s : Store) (ticker : String) : History := (s.histories.lookup ticker).getD []

/-- The list with the value of a key replaced, or added at the end for a new key. -/
def put (ticker : String) (h : History) : List (String × History) → List (String × History)
  | [] => [(ticker, h)]
  | (name, old) :: rest =>
    if name = ticker then (ticker, h) :: rest else (name, old) :: put ticker h rest

/-- Adds a tick. The answer is whether a window closed. -/
def add (s : Store) (t : Tick) : Except Refusal (Store × Bool) :=
  (History.add s.window s.bound (s.history t.ticker) t).map fun (h, closed) =>
    ({ s with histories := put t.ticker h s.histories }, closed)

/-- The store after a tick, whether it was added or refused. -/
def feed (s : Store) (t : Tick) : Store :=
  match s.add t with
  | .ok (s, _) => s
  | .error _ => s

/-- Every ticker that had a tick added, sorted by code points. -/
def tickers (s : Store) : List String := (s.histories.map (·.1)).mergeSort (· ≤ ·)

/-- The store without its histories. -/
def clear (s : Store) : Store := { s with histories := [] }

end Store

end TapeReader
