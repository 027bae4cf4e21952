import TapeReader.Feed.Listener
import TapeReader.Momentum.Desk

/-!
# Traders

A trader is a client that listens for one session: what the feed streams goes to the board, and the
desk watches it.

* `Trader.open?`: everything that has to be there before a line is dialled.
* `Trader.run`: one connection, with the signals given on the way in its report.
-/

namespace TapeReader.Momentum

variable [TimeZones]

/-- The only listener of the client: the session. -/
inductive SessionListener where
  | session
deriving DecidableEq, Repr

structure Trader where
  client : Feed.Client SessionListener
  session : Session

namespace Trader

/-- A payload is a message to the session's board; the note is the signals given on it. -/
def listen : Feed.Listening SessionListener Session (List Signal) := fun listener payload s =>
  let (s, signals, answer) := s.message payload
  { listener
    around := s
    note := signals
    done := match answer with
      | .aborted a => .error a
      | _ => .ok () }

/-- **A trader for a configuration**: the client with its listener, the desk opened on an empty
board, and watching it. -/
def open? (c : Config) : Except FeedError Trader := do
  let client : Feed.Client SessionListener := { config := c.feed }
  let client ← (client.register Feed.Listener.boardName .session).mapError .name
  let session ← (Session.open? c.aggregation c.strategy).mapError .config
  let session ← session.watch
  .ok { client, session }

/-- A run over the line that dialling gives. -/
def run (t : Trader) (dial : Config.Feed → Except LineFault Feed.Script) :
    Feed.Client.Report SessionListener Session (List Signal) :=
  t.client.run listen dial t.session

end Trader

end TapeReader.Momentum
