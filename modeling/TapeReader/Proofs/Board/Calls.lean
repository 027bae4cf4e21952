import TapeReader.Proofs.Board.Fanout
import TapeReader.Proofs.Market.Bound

/-!
# What the stores of a board are called with

The stores of a board are called with one and the same: ticks, and the order to forget.

* `callAll`: every store called; `get_foldl_callAll`: each of them goes its own way.
* `fedBy`: the ticks of a batch that the stores are fed, up to one at which a watcher gives up.
* `history_eq_take_whole`: **what a board shows of a ticker is the front of a whole history.**
-/

namespace TapeReader.Board

variable {κ σ ν : Type}

/-- Every store called. -/
def callAll (stores : PerResolution Store) (c : Call) : PerResolution Store :=
  stores.map (·.after c)

variable {stores : PerResolution Store} {aggregation : Config.Aggregation} {calls : List Call}

/-- Every store goes its own way. -/
theorem get_foldl_callAll (stores : PerResolution Store) (calls : List Call) (r : Resolution) :
    (calls.foldl callAll stores).get r = calls.foldl Store.after (stores.get r) := by
  induction calls generalizing stores with
  | nil => rfl
  | cons c rest ih =>
    rw [List.foldl_cons, List.foldl_cons, ih, callAll, PerResolution.get_map]

theorem Proper.callAll (h : Proper stores) (calls : List Call) :
    Proper (calls.foldl Board.callAll stores) := by
  intro r
  rw [get_foldl_callAll, Store.window_foldl]
  exact h r

/-- A board that has been called, one tick on. -/
theorem foldl_callAll_feedAll (stores : PerResolution Store) (calls : List Call) (t : Tick) :
    feedAll (calls.foldl callAll stores) t = (calls ++ [Call.add t]).foldl callAll stores := by
  rw [List.foldl_concat]
  rfl

/-- A board that has been called, and forgets its bars. -/
theorem foldl_callAll_clear (stores : PerResolution Store) (calls : List Call) :
    (calls.foldl callAll stores).map Store.clear = (calls ++ [Call.clear]).foldl callAll stores := by
  rw [List.foldl_concat]
  rfl

/-- **A board shows the front of the whole history of a ticker.** -/
theorem history_eq_take_whole {b : Board κ} (hroom : 1 ≤ aggregation.historyLen)
    (hstores : b.stores = calls.foldl callAll (ofConfig aggregation : Board κ).stores)
    (r : Resolution) (ticker : String) :
    b.history r ticker =
      (Store.whole ⟨aggregation.resolutionsSecs.get r⟩ calls ticker).take aggregation.historyLen := by
  unfold history
  rw [hstores, get_foldl_callAll, ofConfig_get]
  exact Store.history_eq_take_whole hroom calls ticker

/-- The ticks of a batch that the stores are fed: all of them, or those up to one at which a watcher
gives up. -/
def fedBy (react : Reaction κ σ ν) (told : List (String × κ)) : List Tick → World κ σ → List Tick
  | [], _ => []
  | t :: rest, w =>
    match apply react told t w with
    | (w, _, .ok ()) => t :: fedBy react told rest w
    | (_, _, .error _) => [t]

theorem fedBy_isPrefix (react : Reaction κ σ ν) (told : List (String × κ)) (ticks : List Tick)
    (w : World κ σ) : fedBy react told ticks w <+: ticks := by
  induction ticks generalizing w with
  | nil => exact List.nil_prefix
  | cons t rest ih =>
    unfold fedBy
    obtain ⟨w', notices, done⟩ := apply react told t w
    cases done with
    | ok u => exact List.cons_prefix_cons.2 ⟨rfl, ih w'⟩
    | error a => exact List.cons_prefix_cons.2 ⟨rfl, List.nil_prefix⟩

/-- Unless one gives up, all of them are. -/
theorem fedBy_eq_self {react : Reaction κ σ ν} {told : List (String × κ)} {ticks : List Tick}
    {w : World κ σ} (h : (applyAll react told ticks w).2.2 = .ok ()) :
    fedBy react told ticks w = ticks := by
  induction ticks generalizing w with
  | nil => rfl
  | cons t rest ih =>
    unfold applyAll at h
    unfold fedBy
    cases hr : apply react told t w with
    | mk w' p =>
      obtain ⟨notices, done⟩ := p
      rw [hr] at h
      cases done with
      | error a => simp at h
      | ok u => exact congrArg (t :: ·) (ih h)

end TapeReader.Board
