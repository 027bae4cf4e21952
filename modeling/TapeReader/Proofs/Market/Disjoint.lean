import TapeReader.Proofs.Market.Refusal
import TapeReader.Proofs.Market.Span

/-!
# Bars that do not overlap

* `History.add_ne_otherTicker`: a history of one ticker holds nothing against a tick for its ticker.
* `Store.bars_disjoint`: **the bars of a ticker are aligned, none is longer than its window, and no two
  of them overlap**, after any calls.
-/

namespace TapeReader

namespace History

variable {w : Window} {h : History} {t : Tick}

theorem merge_ne_otherTicker {front : Bar} (hticker : front.ticker = t.ticker) (tick bar : String) :
    merge w front t ≠ .error (.otherTicker tick bar) := by
  unfold merge
  by_cases hstart : t.start < front.start
  · simp [hstart]
  by_cases hfit : w.millis < wrap (t.stop - front.start)
  · simp [hstart, hfit]
  · simp [hstart, hfit, Bar.absorb, hticker, bind, Except.bind]

/-- To open a bar no other is looked at. -/
theorem open_ne_otherTicker (w : Window) (bound : ℕ) (h : History) (tick bar : String) :
    (openBar w t).map (push bound h) ≠ .error (.violation (.otherTicker tick bar)) := by
  unfold openBar
  split
  · simp [Except.map]
  · dsimp only
    split <;> simp [Except.map]

/-- **A history of one ticker holds nothing against a tick for its ticker.** -/
theorem add_ne_otherTicker (w : Window) (bound : ℕ) (hnamed : ∀ b ∈ h, b.ticker = t.ticker)
    (tick bar : String) : add w bound h t ≠ .error (.violation (.otherTicker tick bar)) := by
  unfold add
  cases hvalid : t.validate with
  | error v =>
    -- an invalid tick is refused before any bar is looked at
    have hobjection : w.Objection none t v := Window.objection_of_validate hvalid
    cases hobjection <;> simp
  | ok u =>
    cases h with
    | nil => exact open_ne_otherTicker w bound [] tick bar
    | cons front older =>
      dsimp only
      split
      · have hmerge := merge_ne_otherTicker (w := w) (hnamed front (by simp)) tick bar
        cases hm : merge w front t with
        | error v =>
          rw [hm] at hmerge
          simpa using hmerge
        | ok r => simp
      · exact open_ne_otherTicker w bound (front :: older) tick bar

end History

namespace Store

variable {w : Window}

/-- **Windows are disjoint, aligned and never overrun.** After any calls whose instants 64 bits hold,
whatever the length of the windows and the number of bars kept: a bar kept under a ticker is of that
ticker, starts at a multiple of the length of a window, before the epoch too, and spans something but
no more than that length; of two bars, the newer one starts a window or more after the older one, and
not before the older one ends; and all bars but the newest have been reported. So no tick is refused
for being of another ticker than the bar it goes into. -/
theorem bars_disjoint (hw : w.InRange) (bound : ℕ) (calls : List Call)
    (hcalls : ∀ c ∈ calls, c.Within w) :
    let s := calls.foldl after (fresh w bound)
    (∀ ticker,
      (∀ b ∈ s.history ticker, b.ticker = ticker ∧ w.millis ∣ b.start ∧
        0 < b.stop - b.start ∧ b.stop - b.start ≤ w.millis) ∧
      ((s.history ticker).Pairwise fun newer older =>
        older.start + w.millis ≤ newer.start ∧ older.stop ≤ newer.start) ∧
      ∀ b ∈ (s.history ticker).tail, b.closureReported = true) ∧
    ∀ t tick bar, s.add t ≠ .error (.violation (.otherTicker tick bar)) := by
  intro s
  have htidy : ∀ ticker, History.Tidy w (s.history ticker) := tidy_foldl hw bound hcalls
  have hnamed : ∀ ticker, ∀ b ∈ s.history ticker, b.ticker = ticker := by
    have hrun := Ledger.named_run w bound calls
    rwa [run_fresh] at hrun
  refine ⟨fun ticker => ⟨fun b hb => ?_, ?_, (htidy ticker).settled⟩, fun t tick bar hadd => ?_⟩
  · obtain ⟨hstart, hstop⟩ := (htidy ticker).span b hb
    unfold Window.edge at hstop
    exact ⟨hnamed ticker b hb, (htidy ticker).aligned b hb, by omega, by omega⟩
  · refine (htidy ticker).spaced.imp_of_mem fun {newer older} _ holder hedge => ⟨hedge, ?_⟩
    exact ((htidy ticker).span older holder).2.trans hedge
  · rw [add_eq_error_iff] at hadd
    exact History.add_ne_otherTicker _ _ (hnamed t.ticker) tick bar hadd

/-- Room for two bars: one from before the epoch that drops out, one that reaches its edge, and one
that ends earlier than it did; a tick that comes too late and one that is too long are refused. -/
theorem bars_disjoint_three :
    let calls := [(-25000, -24000), (-12000, -10000), (3000, 9000), (1000, 2000), (-5000, -4000),
      (8000, 11000)].map fun (start, stop) => Call.add (Tick.plain start stop)
    let s := calls.foldl after (fresh ⟨10⟩ 2)
    (Window.InRange ⟨10⟩ ∧ ∀ c ∈ calls, c.Within ⟨10⟩) ∧
      (s.history "SPCE").map (fun b => (b.start, b.stop)) = [(0, 2000), (-20000, -10000)] ∧
      ((s.history "SPCE").Pairwise fun newer older =>
        older.start + 10000 ≤ newer.start ∧ older.stop ≤ newer.start) ∧
      ∀ b ∈ (s.history "SPCE").tail, b.closureReported = true := by
  intro calls s
  have hcalls : ∀ c ∈ calls, c.Within ⟨10⟩ := by decide +kernel
  obtain ⟨-, hspaced, hreported⟩ := (bars_disjoint (w := ⟨10⟩) (by decide) 2 calls hcalls).1 "SPCE"
  exact ⟨⟨by decide, hcalls⟩, by decide +kernel, hspaced, hreported⟩

end Store

end TapeReader
