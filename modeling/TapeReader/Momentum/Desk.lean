import TapeReader.Board.Message
import TapeReader.Momentum.Rule

/-!
# The desk

The desk watches a board for entries and holds one ticker at a time.

* `Desk.update`: the desk told a ticker.
* `Session.step`: a board and a desk, driven from outside.
-/

namespace TapeReader.Momentum

variable [TimeZones]

/-- An entry: buy at the price, up to the limit. -/
structure Signal where
  ticker : String
  price : Decimal
  limit : Decimal
  instant : Int
deriving DecidableEq, Repr

structure Desk where
  rule : Config.Momentum
  /-- The ticker that is held. -/
  held : Option String := none
  /-- Whether anyone takes signals. -/
  receiving : Bool := true
deriving DecidableEq, Repr

namespace Desk

/-- The name under which the desk is known. -/
def name : String := "chase_momentum"

/-- The name under which it watches a board. -/
def watcherName : String := "chase_momentum_process_new_data"

/-- A desk for a rule whose session is not empty. -/
def open? (rule : Config.Momentum) : Except ConfigFault Desk :=
  if rule.sessionStart < rule.sessionEnd then .ok { rule }
  else .error (.session rule.sessionStart rule.sessionEnd)

/-- How far above the close the limit is. -/
def limitMargin : Decimal := ⟨5, 2, by decide, by decide⟩

/-- The signal that the bars of a ticker give. -/
def signal? (d : Desk) (ticker : String) (tens minutes : History) :
    Except Abort (Option Signal) := do
  if ← isEntryPoint d.rule tens minutes then
    match tens.head? with
    | none => .ok none
    | some bar =>
      match bar.closePrice.add? limitMargin with
      | none => .error .addition
      | some limit =>
        .ok (bar.endTime?.map fun instant => ⟨ticker, bar.closePrice, limit, instant⟩)
  else .ok none

/-- The desk told of a ticker: while it holds none, an entry is signalled, and held once someone
has taken the signal. -/
def update (d : Desk) (ticker : String) (tens minutes : History) :
    Desk × Except Abort (Option Signal) :=
  match d.held with
  | some _ => (d, .ok none)
  | none =>
    match d.signal? ticker tens minutes with
    | .error abort => (d, .error abort)
    | .ok none => (d, .ok none)
    | .ok (some signal) =>
      if d.receiving then ({ d with held := some ticker }, .ok (some signal))
      else (d, .ok none)

/-- The position closed. -/
def release (d : Desk) : Desk := { d with held := none }

/-- No one takes signals any more. -/
def closeReceiver (d : Desk) : Desk := { d with receiving := false }

end Desk

/-- The only watcher of the board: the desk. -/
inductive DeskWatcher where
  | desk
deriving DecidableEq, Repr

/-- The desk looks at the ten-second bars and the minute bars, and notes the signal it gave. -/
def react : Board.Reaction DeskWatcher Desk (Option Signal) := fun _ ticker w =>
  let tens := w.board.history .tenSeconds ticker
  let minutes := w.board.history .oneMinute ticker
  let (desk, note) := w.around.update ticker tens minutes
  ({ w with around := desk }, note)

/-- A desk and its board, as long as there is one. -/
structure Session where
  board : Option (Board DeskWatcher)
  desk : Desk

namespace Session

/-- A desk opened on an empty board. -/
def open? (aggregation : Config.Aggregation) (rule : Config.Momentum) :
    Except ConfigFault Session :=
  (Desk.open? rule).map fun desk => { board := some (.ofConfig aggregation), desk }

/-- What is done to a session. -/
inductive Step where
  /-- The desk starts to watch the board. -/
  | watch
  | entry (ticker : String)
  | release
  | message (raw : String)
  | closeReceiver
  | dropBoard
  | clear
deriving DecidableEq, Repr

inductive Answer where
  | done
  | entry (yes : Bool)
  | applied (ticks : Nat)
  | refused (error : FeedError)
  | aborted (abort : Abort)
  /-- There is no board to ask. -/
  | nothing
deriving DecidableEq, Repr

/-- The desk registered as a watcher. -/
def watch (s : Session) : Except FeedError Session :=
  match s.board with
  | none => .error (.config .noBoard)
  | some board =>
    match board.register Desk.watcherName .desk with
    | .ok board => .ok { s with board := some board }
    | .error fault => .error (.name fault)

/-- Whether a ticker is an entry now. -/
def isEntryPoint (s : Session) (ticker : String) : Except Abort Bool :=
  match s.board with
  | none => .ok false
  | some board =>
    Momentum.isEntryPoint s.desk.rule (board.history .tenSeconds ticker)
      (board.history .oneMinute ticker)

/-- A message to the board, and the signals that the desk gave on it. -/
def message (s : Session) (raw : String) : Session × List Signal × Answer :=
  match s.board with
  | none => (s, [], .nothing)
  | some board =>
    let (w, notices, result) := Board.receive react raw ⟨board, s.desk⟩
    let s := { board := some w.board, desk := w.around }
    let signals := notices.filterMap (·.note)
    match result with
    | .ok ticks => (s, signals, .applied ticks)
    | .error .decode => (s, signals, .refused .decode)
    | .error .emptyBatch => (s, signals, .refused .emptyBatch)
    | .error (.abort a) => (s, signals, .aborted a)

/-- **One step of a session**, with the signals given and the answer. -/
def step (s : Session) : Step → Session × List Signal × Answer
  | .watch =>
    match s.watch with
    | .ok s => (s, [], .done)
    | .error e => (s, [], .refused e)
  | .entry ticker =>
    match s.isEntryPoint ticker with
    | .ok yes => (s, [], .entry yes)
    | .error a => (s, [], .aborted a)
  | .release => ({ s with desk := s.desk.release }, [], .done)
  | .message raw => s.message raw
  | .closeReceiver => ({ s with desk := s.desk.closeReceiver }, [], .done)
  | .dropBoard => ({ s with board := none }, [], .done)
  | .clear =>
    match s.board with
    | none => (s, [], .nothing)
    | some board => ({ s with board := some board.clear }, [], .done)

end Session

end TapeReader.Momentum
