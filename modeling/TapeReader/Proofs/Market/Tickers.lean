import TapeReader.Proofs.Market.Log

/-!
# Tickers apart

* `Store.AgreeOn`: two stores that do not differ in a ticker.
* `AgreeOn.feed`, `AgreeOn.feed_left`: ticks of the ticker keep them so, and ticks of others too,
  even when only one of the stores gets them.
* `Store.tickers_apart`: **a ticker's answers and bars are those of its own ticks**, whatever comes
  in between.
-/

namespace TapeReader.Store

/-- Two stores with windows and a bound alike, and the same bars of a ticker. -/
structure AgreeOn (ticker : String) (s s' : Store) : Prop where
  window_eq : s.window = s'.window
  bound_eq : s.bound = s'.bound
  history_eq : s.history ticker = s'.history ticker

variable {s s' : Store} {t : Tick} {ticker : String}

theorem AgreeOn.refl (ticker : String) (s : Store) : AgreeOn ticker s s := ⟨rfl, rfl, rfl⟩

/-- A tick leaves the bars of other tickers alone. -/
theorem history_feed_of_ne (hne : t.ticker ≠ ticker) :
    (s.feed t).history ticker = s.history ticker := by
  cases hadd : s.add t with
  | error r => rw [feed_of_error hadd]
  | ok added =>
    obtain ⟨s', closed⟩ := added
    obtain ⟨h, -, rfl⟩ := add_eq_ok_iff.1 hadd
    rw [feed_of_ok hadd, history_put, if_neg (Ne.symm hne)]

/-- **A tick of the ticker** is answered alike, and the stores go on agreeing. -/
theorem AgreeOn.feed (h : AgreeOn t.ticker s s') :
    (s.add t).map (·.2) = (s'.add t).map (·.2) ∧ AgreeOn t.ticker (s.feed t) (s'.feed t) := by
  obtain ⟨hwindow, hbound, hhistory⟩ := h
  have hsame : History.add s.window s.bound (s.history t.ticker) t =
      History.add s'.window s'.bound (s'.history t.ticker) t := by
    rw [hwindow, hbound, hhistory]
  cases hadd : History.add s'.window s'.bound (s'.history t.ticker) t with
  | error r =>
    rw [hadd] at hsame
    have hs := add_eq_error_iff.2 hsame
    have hs' := add_eq_error_iff.2 hadd
    rw [hs, hs', feed_of_error hs, feed_of_error hs']
    exact ⟨rfl, hwindow, hbound, hhistory⟩
  | ok grown =>
    obtain ⟨history, closed⟩ := grown
    rw [hadd] at hsame
    have hs := add_eq_ok_iff.2 ⟨history, hsame, rfl⟩
    have hs' := add_eq_ok_iff.2 ⟨history, hadd, rfl⟩
    rw [hs, hs', feed_of_ok hs, feed_of_ok hs']
    refine ⟨rfl, hwindow, hbound, ?_⟩
    rw [history_put, history_put, if_pos rfl, if_pos rfl]

/-- **A tick of another ticker** does not count, whatever the store makes of it. -/
theorem AgreeOn.feed_left (h : AgreeOn ticker s s') (hne : t.ticker ≠ ticker) :
    AgreeOn ticker (s.feed t) s' where
  window_eq := (feed_window s t).trans h.window_eq
  bound_eq := (feed_bound s t).trans h.bound_eq
  history_eq := (history_feed_of_ne hne).trans h.history_eq

/-- **Two runs**, one of them of the ticks of the ticker only: the answers to these are the same,
and in the end the stores agree. -/
theorem AgreeOn.run (h : AgreeOn ticker s s') (ticks : List Tick) :
    let own := ticks.filter (·.ticker = ticker)
    (s.log ticks).filter (·.1.ticker = ticker) = s'.log own ∧
      AgreeOn ticker (ticks.foldl Store.feed s) (own.foldl Store.feed s') := by
  induction ticks generalizing s s' with
  | nil => exact ⟨rfl, h⟩
  | cons t rest ih =>
    dsimp only at ih ⊢
    by_cases ht : t.ticker = ticker
    · subst ht
      obtain ⟨hanswer, hnext⟩ := h.feed
      -- both stores get the tick, and agree about it even when they refuse it
      obtain ⟨hlog, hend⟩ := ih hnext
      have hown : (t :: rest).filter (·.ticker = t.ticker) =
          t :: rest.filter (·.ticker = t.ticker) := List.filter_cons_of_pos (by simp)
      rw [hown, log, log, List.filter_cons_of_pos (by simp), hlog, hanswer]
      exact ⟨rfl, hend⟩
    · have hown : (t :: rest).filter (·.ticker = ticker) = rest.filter (·.ticker = ticker) :=
        List.filter_cons_of_neg (by simpa using ht)
      rw [hown, log, List.filter_cons_of_neg (by simpa using ht)]
      exact ih (h.feed_left ht)

/-- **Tickers do not interfere.** Ticks of any tickers come to a store in any order. What the ticks
of one ticker are answered, and the bars of that ticker in the end, are as when a store gets these
ticks alone, in the same order; so other ticks that bring the ticker the same ones, however they
come among those of other tickers, bring it the same answers and bars. A ticker is known when one of
its ticks was added. -/
theorem tickers_apart (w : Window) (bound : ℕ) (ticks : List Tick) (ticker : String) :
    let empty := fresh w bound
    let own := ticks.filter (·.ticker = ticker)
    (empty.log ticks).filter (·.1.ticker = ticker) = empty.log own ∧
      (ticks.foldl feed empty).history ticker = (own.foldl feed empty).history ticker ∧
      (∀ others : List Tick, others.filter (·.ticker = ticker) = own →
        (empty.log others).filter (·.1.ticker = ticker) =
            (empty.log ticks).filter (·.1.ticker = ticker) ∧
          (others.foldl feed empty).history ticker = (ticks.foldl feed empty).history ticker) ∧
      (ticker ∈ (ticks.foldl feed empty).tickers ↔
        ∃ entry ∈ empty.log ticks, entry.1.ticker = ticker ∧ entry.2.isOk = true) := by
  intro empty own
  -- every order of the ticks is compared with the ticker's own ticks alone
  have halone : ∀ l : List Tick, _ ∧ _ := (AgreeOn.refl ticker empty).run
  refine ⟨(halone ticks).1, (halone ticks).2.history_eq, fun others hothers => ?_, ?_⟩
  · rw [(halone others).1, (halone ticks).1, (halone others).2.history_eq,
      (halone ticks).2.history_eq, hothers]
    exact ⟨rfl, rfl⟩
  · have hnone : ticker ∉ empty.tickers := by simp [mem_tickers_iff, empty, fresh]
    rw [mem_tickers_foldl_feed, or_iff_right hnone]

/-- Ticks of two tickers, some of them refused, in two orders: one ticker is told the same. -/
theorem tickers_apart_two :
    let other (start stop : ℤ) : Tick := { Tick.plain start stop with ticker := "AAPL" }
    let ticks := [Tick.plain 0 5000, other 12000 13000, Tick.plain 12000 13000, other 0 1000,
      Tick.plain 5000 6000]
    let others := [other 12000 13000, other 0 1000, Tick.plain 0 5000, Tick.plain 12000 13000,
      Tick.plain 5000 6000]
    let empty := fresh ⟨10⟩ 2
    others.filter (·.ticker = "SPCE") = ticks.filter (·.ticker = "SPCE") ∧
      ((empty.log ticks).filter (·.1.ticker = "SPCE")).map (·.2) = [.ok false, .ok true,
        .error (.violation (.predates "SPCE" 5000 10000))] ∧
      (empty.log others).filter (·.1.ticker = "SPCE") =
        (empty.log ticks).filter (·.1.ticker = "SPCE") ∧
      (others.foldl feed empty).history "SPCE" = (ticks.foldl feed empty).history "SPCE" := by
  intro other ticks others empty
  have hown : others.filter (·.ticker = "SPCE") = ticks.filter (·.ticker = "SPCE") := by
    decide +kernel
  exact ⟨hown, by decide +kernel, (tickers_apart ⟨10⟩ 2 ticks "SPCE").2.2.1 others hown⟩

end TapeReader.Store
