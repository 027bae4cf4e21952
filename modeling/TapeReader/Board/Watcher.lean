import TapeReader.Board.Message

/-!
# Watchers

Watchers that look at the board, and watchers that change it.

* `Watcher.react`: what each of them does, and the note it leaves.
-/

namespace TapeReader

inductive Watcher where
  /-- Does nothing but take note. -/
  | observer
  /-- Reads the newest bar at each resolution. -/
  | reader
  /-- Registers an observer. -/
  | installer (target : String)
  /-- Unregisters a watcher, itself perhaps. -/
  | remover (target : String)
  /-- Forgets every bar. -/
  | clearer
deriving DecidableEq, Repr

namespace Watcher

/-- What a watcher takes note of. -/
inductive Note where
  | told
  /-- How many bars there are at each resolution, and the newest. -/
  | bars (newest : PerResolution (Nat × Option Bar))
  /-- How a change of the roster went. -/
  | changed (result : Except NameFault Unit)
deriving Repr

/-- The board after a change of its roster, or as it was, and how the change went. -/
def change (w : Board.World Watcher Unit) (result : Except NameFault (Board Watcher)) :
    Board.World Watcher Unit × Except Abort Note :=
  match result with
  | .ok board => ({ w with board }, .ok (.changed (.ok ())))
  | .error fault => (w, .ok (.changed (.error fault)))

def react : Board.Reaction Watcher Unit Note := fun watcher ticker w =>
  match watcher with
  | .observer => (w, .ok .told)
  | .reader =>
    let newest := w.board.stores.map fun store =>
      let h := store.history ticker
      (h.length, h.head?)
    (w, .ok (.bars newest))
  | .installer target => change w (w.board.register target .observer)
  | .remover target => change w (w.board.unregister target)
  | .clearer => ({ w with board := w.board.clear }, .ok .told)

end Watcher

end TapeReader
