import TapeReader.Config.Basic
import TapeReader.Error
import TapeReader.Market.Store

/-!
# Boards

A board keeps a store for each resolution and a roster of watchers.

* `ofConfig`: the empty board of a configuration.
* `offer`: a tick offered to stores in turn.
-/

namespace TapeReader

/-- The stores, and the watchers to be told of every tick. -/
structure Board (κ : Type) where
  stores : PerResolution Store
  watchers : Roster κ := {}

namespace Board

variable {κ : Type}

/-- The board without bars and without watchers. -/
def ofConfig (c : Config.Aggregation) : Board κ where
  stores := c.resolutionsSecs.map fun secs => { window := ⟨secs⟩, bound := c.historyLen }

/-- The bars of a ticker at a resolution, newest first. -/
def history (b : Board κ) (r : Resolution) (ticker : String) : History :=
  (b.stores.get r).history ticker

/-- The newest bar of a ticker at a resolution. -/
def latest? (b : Board κ) (r : Resolution) (ticker : String) : Option Bar :=
  (b.history r ticker).head?

def windowSecs (b : Board κ) (r : Resolution) : Int := (b.stores.get r).window.secs

/-- The board with every bar forgotten. -/
def clear (b : Board κ) : Board κ := { b with stores := b.stores.map Store.clear }

/-- The board with a watcher more. It is told of ticks from the next message on. -/
def register (b : Board κ) (name : String) (watcher : κ) : Except NameFault (Board κ) :=
  (b.watchers.register name watcher).map fun watchers => { b with watchers }

/-- The board with a watcher less. It is told of ticks until the message under way is done. -/
def unregister (b : Board κ) (name : String) : Except NameFault (Board κ) :=
  (b.watchers.unregister name).map fun (_, watchers) => { b with watchers }

/-- Offers a tick to the stores of some resolutions in turn. A store that refuses it does not stop
the others, a window of length zero does. -/
def offer (t : Tick) :
    List Resolution → PerResolution Store → PerResolution Store × Except Abort Unit
  | [], stores => (stores, .ok ())
  | r :: rest, stores =>
    match (stores.get r).add t with
    | .ok (store, _) => offer t rest (stores.set r store)
    | .error (.violation _) => offer t rest stores
    | .error .zeroWindow => (stores, .error .zeroWindow)

end Board

end TapeReader
