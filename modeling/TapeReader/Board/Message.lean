import TapeReader.Board.Basic
import TapeReader.Board.Batch

/-!
# Messages

A message is decoded, and its ticks are applied one after the other: a tick is offered to every
store, then each watcher is told its ticker.

* `Reaction`: what watchers do when they are told.
* `receive`: one message. The watchers told are those of the board when the message came in.
-/

namespace TapeReader.Board

variable {κ σ ν : Type}

/-- A board and whatever its watchers work on besides. -/
structure World (κ σ : Type) where
  board : Board κ
  around : σ

/-- What a watcher does when it is told a ticker: it may change the board and the world around it,
and it leaves a note or gives up. -/
abbrev Reaction (κ σ ν : Type) := κ → String → World κ σ → World κ σ × Except Abort ν

/-- The note of a watcher on a ticker. -/
structure Notice (ν : Type) where
  watcher : String
  ticker : String
  note : ν
deriving Repr

/-- Tells watchers a ticker, in turn. -/
def notify (react : Reaction κ σ ν) (ticker : String) :
    List (String × κ) → World κ σ → World κ σ × List (Notice ν) × Except Abort Unit
  | [], w => (w, [], .ok ())
  | (name, watcher) :: rest, w =>
    match react watcher ticker w with
    | (w, .ok note) =>
      let (w, notices, done) := notify react ticker rest w
      (w, ⟨name, ticker, note⟩ :: notices, done)
    | (w, .error abort) => (w, [], .error abort)

/-- Offers a tick to every store, then tells the watchers. -/
def apply (react : Reaction κ σ ν) (watchers : List (String × κ)) (t : Tick) (w : World κ σ) :
    World κ σ × List (Notice ν) × Except Abort Unit :=
  let (stores, done) := offer t Resolution.all w.board.stores
  let w := { w with board := { w.board with stores } }
  match done with
  | .ok () => notify react t.ticker watchers w
  | .error abort => (w, [], .error abort)

/-- Applies ticks in turn. -/
def applyAll (react : Reaction κ σ ν) (watchers : List (String × κ)) :
    List Tick → World κ σ → World κ σ × List (Notice ν) × Except Abort Unit
  | [], w => (w, [], .ok ())
  | t :: rest, w =>
    match apply react watchers t w with
    | (w, notices, .ok ()) =>
      let (w, more, done) := applyAll react watchers rest w
      (w, notices ++ more, done)
    | (w, notices, .error abort) => (w, notices, .error abort)

/-- Why a message gave no count. -/
inductive MessageFault where
  | decode
  | emptyBatch
  | abort (a : Abort)
deriving DecidableEq, Repr

/-- **One message.** The answer is the number of ticks applied. -/
def receive (react : Reaction κ σ ν) (raw : String) (w : World κ σ) :
    World κ σ × List (Notice ν) × Except MessageFault Nat :=
  match records? raw with
  | none => (w, [], .error .decode)
  | some [] => (w, [], .error .emptyBatch)
  | some records =>
    let ticks := records.filterMap Tick.ofRecord?
    match applyAll react w.board.watchers.entries ticks w with
    | (w, notices, .ok ()) => (w, notices, .ok ticks.length)
    | (w, notices, .error a) => (w, notices, .error (.abort a))

end TapeReader.Board
