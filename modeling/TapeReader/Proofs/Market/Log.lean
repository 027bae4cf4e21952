import TapeReader.Proofs.Market.Ledger

/-!
# Ticks and the answers to them

* `Store.log`: ticks fed to a store one after the other, each with the answer to it.
* `Store.mem_tickers_foldl_feed`: **a store knows the tickers of which it has added a tick.**
* `Store.log_added`: **the ticks added, fed alone, are answered as they were** and make the same
  store.
-/

namespace TapeReader.Store

/-- Ticks fed to a store, each with the answer to it: whether a window closed, or why the tick was
refused. -/
def log : Store → List Tick → List (Tick × Except Refusal Bool)
  | _, [] => []
  | s, t :: rest => (t, (s.add t).map (·.2)) :: log (s.feed t) rest

variable {s s' : Store} {t : Tick} {closed : Bool} {ticker : String}

/-! ## Known tickers -/

theorem mem_tickers_iff : ticker ∈ s.tickers ↔ ticker ∈ s.histories.map (·.1) :=
  List.mem_mergeSort

theorem mem_map_fst_put {name : String} {h : History} {histories : List (String × History)} :
    ticker ∈ (put name h histories).map (·.1) ↔ ticker = name ∨ ticker ∈ histories.map (·.1) := by
  induction histories with
  | nil => simp [put]
  | cons entry rest ih =>
    obtain ⟨key, old⟩ := entry
    unfold put
    by_cases hkey : key = name
    · simp [hkey]
    · rw [if_neg hkey, List.map_cons, List.mem_cons, ih, List.map_cons, List.mem_cons]
      exact or_left_comm

/-- A tick added makes its ticker known, a tick refused none. -/
theorem mem_tickers_feed : ticker ∈ (s.feed t).tickers ↔
    ticker ∈ s.tickers ∨ t.ticker = ticker ∧ ((s.add t).map (·.2)).isOk = true := by
  cases hadd : s.add t with
  | error r => simp [feed_of_error hadd, Except.map, Except.isOk, Except.toBool]
  | ok added =>
    obtain ⟨s', closed⟩ := added
    obtain ⟨h, -, rfl⟩ := add_eq_ok_iff.1 hadd
    rw [feed_of_ok hadd, mem_tickers_iff, mem_map_fst_put, ← mem_tickers_iff, or_comm]
    simp [Except.map, Except.isOk, Except.toBool, eq_comm]

/-- **The tickers known** are those of the ticks that were added. -/
theorem mem_tickers_foldl_feed (s : Store) (ticks : List Tick) (ticker : String) :
    ticker ∈ (ticks.foldl feed s).tickers ↔
      ticker ∈ s.tickers ∨
        ∃ entry ∈ s.log ticks, entry.1.ticker = ticker ∧ entry.2.isOk = true := by
  induction ticks generalizing s with
  | nil => simp [log]
  | cons t rest ih =>
    rw [List.foldl_cons, ih, mem_tickers_feed, log, List.exists_mem_cons_iff, or_assoc]

/-! ## Ticks refused -/

/-- **The ticks added, fed alone**: they are answered as they were, and make the same store. -/
theorem log_added (s : Store) (ticks : List Tick) :
    let added := (s.log ticks).filter (·.2.isOk)
    s.log (added.map (·.1)) = added ∧
      (added.map (·.1)).foldl feed s = ticks.foldl feed s := by
  induction ticks generalizing s with
  | nil => exact ⟨rfl, rfl⟩
  | cons t rest ih =>
    obtain ⟨hlog, hfeed⟩ := ih (s.feed t)
    rw [log]
    cases hadd : s.add t with
    | error r =>
      -- the tick is left out, and the store is as it was
      rw [List.filter_cons_of_neg (by simp [Except.map, Except.isOk, Except.toBool])]
      rw [feed_of_error hadd] at hlog hfeed ⊢
      exact ⟨hlog, by rw [hfeed, List.foldl_cons, feed_of_error hadd]⟩
    | ok added =>
      rw [List.filter_cons_of_pos (by simp [Except.map, Except.isOk, Except.toBool])]
      refine ⟨?_, hfeed⟩
      rw [List.map_cons, log, hadd, hlog]

end TapeReader.Store
