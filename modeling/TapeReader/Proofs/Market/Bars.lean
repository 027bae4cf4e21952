import TapeReader.Proofs.Market.Ledger

/-!
# Bars and the ticks behind them

* `Ledger.bars_of_taken`: **after any calls, the bars of a ticker are the ticks taken of it, window
  by window**, for as many of the latest windows as the history has room for.
-/

namespace TapeReader.Ledger

variable {w : Window} {bound : ℕ}

/-- **The bars are the ticks taken, window by window.** The history of a ticker has one bar for
each of the latest windows with a tick, newest first; a bar shows just the ticks of its window, and
the sum of their volumes as it is where 64 bits hold it; and all ticks but those of dropped windows
stand in the bars, each once. -/
theorem bars_of_taken (hw : w.InRange) (hbound : 1 ≤ bound) (calls : List Call)
    (hcalls : ∀ c ∈ calls, c.Within w) (ticker : String) :
    let l := (fresh w bound).run calls
    let taken := l.takenOf ticker
    let bars := l.store.history ticker
    (w.starts taken).Pairwise (· > ·) ∧
      (∀ start, start ∈ w.starts taken ↔ ∃ a ∈ taken, w.of a = start) ∧
      bars.map Bar.start = (w.starts taken).take bound ∧
      (∀ b ∈ bars, b.Sums (w.ticksIn taken b.start) ∧
        (Signed ((w.ticksIn taken b.start).map Tick.volume).sum →
          b.volume = ((w.ticksIn taken b.start).map Tick.volume).sum)) ∧
      ∃ dropped, taken = dropped ++ bars.reverse.flatMap (fun b => w.ticksIn taken b.start) ∧
        ((w.starts taken).length ≤ bound → dropped = []) := by
  intro l taken bars
  have hr : History.Records w bound taken bars := (faithful_run hw hbound hcalls).records ticker
  exact ⟨Window.starts_sorted hr.inOrder, fun _ => Window.mem_starts, hr.starts,
    fun b hb => ⟨hr.sums b hb, (hr.sums b hb).volume_eq⟩, hr.ticks_eq⟩

/-- Ten-second windows and room for two bars: a tick before the epoch, one out of order, one too
long for its window, two of one window and one of a third. -/
theorem bars_of_taken_two :
    let calls := [(-12000, -11000), (5000, 6000), (-5000, -4000), (8000, 11000), (7000, 10000),
      (10000, 11000)].map fun (start, stop) => Call.add (Tick.plain start stop)
    let l := (fresh ⟨10⟩ 2).run calls
    (Window.InRange ⟨10⟩ ∧ 1 ≤ 2 ∧ ∀ c ∈ calls, c.Within ⟨10⟩) ∧
      (l.store.history "SPCE").map Bar.start = [10000, 0] ∧
      (l.store.history "SPCE").map Bar.volume = [100, 200] ∧
      (l.store.history "SPCE").map Bar.start =
        ((⟨10⟩ : Window).starts (l.takenOf "SPCE")).take 2 :=
  ⟨by decide +kernel, by decide +kernel, by decide +kernel,
    (bars_of_taken (by decide) (by decide) _ (by decide +kernel) "SPCE").2.2.1⟩

end TapeReader.Ledger
