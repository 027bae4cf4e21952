import TapeReader.Board.Watcher
import TapeReader.Feed.Client

/-!
# Listeners

* `hearBoard`: a board that takes payloads as messages.
* `Listener.listen`: a listener that counts payloads, and such a board.
* `attach`: the board registered with a client.
-/

namespace TapeReader.Feed

/-- A board on a line. A payload is a message to it, and a message that it refuses is dropped. The
note is what the watchers noted. -/
def hearBoard {η κ σ ν : Type} (react : Board.Reaction κ σ ν) :
    Listening η (Board.World κ σ) (List (Board.Notice ν)) := fun listener payload w =>
  let (w, notices, result) := Board.receive react payload w
  { listener
    around := w
    note := notices
    done := match result with
      | .error (.abort a) => .error a
      | _ => .ok () }

inductive Listener where
  /-- Counts the payloads, and asks for shutdown on one of them. -/
  | counter (calls : Nat) (shutdownOn : Option String)
  | board
deriving DecidableEq, Repr

namespace Listener

inductive Note where
  | counted (calls : Nat)
  /-- What the watchers of the board noted. -/
  | watched (notices : List (Board.Notice Watcher.Note))
deriving Repr

def listen : Listening Listener (Board Watcher) Note := fun listener payload board =>
  match listener with
  | .counter calls shutdownOn =>
    { listener := .counter (calls + 1) shutdownOn
      around := board
      note := .counted (calls + 1)
      shutdown := shutdownOn == some payload }
  | .board =>
    let heard := hearBoard Watcher.react listener payload ⟨board, ()⟩
    { listener
      around := heard.around.board
      note := .watched heard.note
      done := heard.done }

/-- The name under which a board listens. -/
def boardName : String := "data_handler_process_message"

/-- The client with the board among its listeners. -/
def attach (c : Client Listener) : Except NameFault (Client Listener) := c.register boardName .board

end Listener

end TapeReader.Feed
