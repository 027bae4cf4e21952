import TapeReader.Proofs.Market.Acceptance
import TapeReader.Proofs.Market.Bound

/-!
# Bars laid out in time

* `History.Laid`: bars that start where windows do, a window apart or more, none of them longer than
  its window.
* `History.Tidy`: and all but the newest of them reported.
* `History.Grows.tidy`: a tick that is taken keeps a history tidy, in either way of taking it.
* `Store.tidy_foldl`: **every history is tidy, after any calls**, whatever its bound.
* `Store.fits_of_mem`: the bars that start within range are on windows, whatever ticks have come.
* `Store.isOk_add_iff`: **a store adds a valid tick that fits in its window, unless the newest bar
  starts later than the tick**.
-/

namespace TapeReader

namespace History

/-- Bars laid out on windows, newest first: each starts where a window does, spans something and no
more than its window, and begins after the windows of all older ones. -/
structure Laid (w : Window) (h : History) : Prop where
  aligned : ∀ b ∈ h, w.millis ∣ b.start
  span : ∀ b ∈ h, b.start < b.stop ∧ b.stop ≤ w.edge b.start
  spaced : h.Pairwise fun newer older => w.edge older.start ≤ newer.start

/-- **A tidy history**: its bars are laid out on windows, and all but the newest have been reported. -/
structure Tidy (w : Window) (h : History) : Prop extends Laid w h where
  settled : ∀ b ∈ h.tail, b.closureReported = true

variable {w : Window} {bound : ℕ} {h h' : History} {ticks : List Tick} {t : Tick} {closed : Bool}
  {front : Bar} {older : History}

/-! ## What a tick keeps -/

theorem tidy_nil (w : Window) : Tidy w [] where
  aligned := by simp
  span := by simp
  spaced := .nil
  settled := by simp

/-- Bars that drop out at the end leave a tidy history. -/
theorem Tidy.take (hh : Tidy w h) (n : ℕ) : Tidy w (h.take n) where
  aligned b hb := hh.aligned b (List.mem_of_mem_take hb)
  span b hb := hh.span b (List.mem_of_mem_take hb)
  spaced := hh.spaced.sublist (List.take_sublist n h)
  settled b hb := by
    rw [← List.drop_one, List.drop_take, List.drop_one] at hb
    exact hh.settled b (List.mem_of_mem_take hb)

/-- The newest bar reported leaves a tidy history, of which every bar is reported. -/
theorem Tidy.settle (hh : Tidy w h) :
    Tidy w (settle h) ∧ ∀ b ∈ History.settle h, b.closureReported = true := by
  cases h with
  | nil => exact ⟨hh, by simp [History.settle]⟩
  | cons front older =>
    obtain ⟨⟨haligned, hspan, hspaced⟩, hsettled⟩ := hh
    refine ⟨⟨⟨?_, ?_, ?_⟩, hsettled⟩, ?_⟩
    · exact List.forall_mem_cons.2 (List.forall_mem_cons.1 haligned)
    · exact List.forall_mem_cons.2 (List.forall_mem_cons.1 hspan)
    · exact List.pairwise_cons.2 (List.pairwise_cons.1 hspaced)
    · exact List.forall_mem_cons.2 ⟨rfl, hsettled⟩

/-- A tick after the newest bar's window comes after the windows of all bars. -/
theorem Laid.edge_le (hl : Laid w h) (hw : 0 < w.millis)
    (hlate : ∀ front ∈ h.head?, w.edge front.start ≤ t.start) :
    ∀ b ∈ h, w.edge b.start ≤ t.start := by
  cases h with
  | nil => simp
  | cons front older =>
    have hfront := hlate front rfl
    refine List.forall_mem_cons.2 ⟨hfront, fun b hb => ?_⟩
    have hbelow := (List.pairwise_cons.1 hl.spaced).1 b hb
    unfold Window.edge at hfront
    omega

/-- A tick in the newest bar's window, folded into the bar. -/
theorem Tidy.merged (hh : Tidy w (front :: older)) (hspan : t.start < t.stop)
    (hstart : front.start ≤ t.start) (hfit : t.stop ≤ w.edge front.start) :
    Tidy w (front.joined w t :: older) where
  aligned := List.forall_mem_cons.2 (List.forall_mem_cons.1 hh.aligned)
  span := by
    -- the bar ends with the tick now, earlier than before perhaps, but not before it starts
    refine List.forall_mem_cons.2 ⟨⟨?_, hfit⟩, (List.forall_mem_cons.1 hh.span).2⟩
    exact lt_of_le_of_lt hstart hspan
  spaced := List.pairwise_cons.2 (List.pairwise_cons.1 hh.spaced)
  settled := hh.settled

/-- A tick after the newest bar's window, in a bar of its own. -/
theorem Tidy.opened (hw : 0 < w.millis) (hh : Tidy w h) (hspan : t.start < t.stop)
    (hlate : ∀ front ∈ h.head?, w.edge front.start ≤ t.start) (hfit : t.stop ≤ w.edge (w.of t)) :
    Tidy w (Bar.opened w t :: History.settle h) := by
  obtain ⟨hsettled, hreported⟩ := hh.settle
  have hbefore : ∀ b ∈ h, w.edge b.start ≤ w.of t := fun b hb =>
    Window.le_align hw (Window.dvd_edge (hh.aligned b hb)) (hh.edge_le hw hlate b hb)
  refine ⟨⟨?_, ?_, ?_⟩, hreported⟩
  · exact List.forall_mem_cons.2 ⟨Window.dvd_align w t.start, hsettled.aligned⟩
  · exact List.forall_mem_cons.2 ⟨⟨lt_of_le_of_lt (Window.align_le hw t.start) hspan, hfit⟩,
      hsettled.span⟩
  · refine List.pairwise_cons.2 ⟨fun b hb => ?_, hsettled.spaced⟩
    obtain ⟨b', hb', reported, rfl⟩ := mem_settle hb
    exact hbefore b' hb'

/-- **A tick that is taken keeps a history tidy.** -/
theorem Grows.tidy (hw : 0 < w.millis) (hg : Grows w bound t h h' closed)
    (hspan : t.start < t.stop) (hh : Tidy w h) : Tidy w h' := by
  cases hg with
  | merged hticker hstart hin hfit => exact hh.merged hspan hstart hfit
  | opened hlate hfit => exact (hh.opened hw hspan hlate hfit).take bound

end History

namespace Store

variable {w : Window} {bound : ℕ} {calls : List Call} {t : Tick} {ticker : String}

/-- **Every history is tidy, after any calls**, whatever its bound. -/
theorem tidy_foldl (hw : w.InRange) (bound : ℕ) (hcalls : ∀ c ∈ calls, c.Within w) (ticker : String) :
    History.Tidy w ((calls.foldl after (fresh w bound)).history ticker) := by
  rw [← run_fresh]
  refine Ledger.forall_history_run (P := fun _ h => History.Tidy w h) hw hcalls
    (fun _ => History.tidy_nil w) (fun t _ _ _ _ hvalid hg hh => ?_) ticker
  exact hg.tidy hw.millis_pos (Tick.validate_eq_ok_iff.1 hvalid).2 hh

/-- The whole history is laid out too. -/
theorem laid_whole (hw : w.InRange) (hcalls : ∀ c ∈ calls, c.Within w) (ticker : String) :
    History.Laid w (whole w calls ticker) :=
  (tidy_foldl hw calls.length hcalls ticker).toLaid

/-- The windows of a history stay within range, whatever its bound. -/
theorem holds_of_mem (hw : w.InRange) (bound : ℕ) (hcalls : ∀ c ∈ calls, c.Within w) (ticker : String) :
    ∀ b ∈ (calls.foldl after (fresh w bound)).history ticker, w.Holds b.start := by
  rw [← run_fresh]
  exact Ledger.forall_history_run (P := fun _ h => ∀ b ∈ h, w.Holds b.start) hw hcalls (by simp)
    (fun t _ _ _ ht _ hg hh => hg.holds hw.millis_pos ht hh) ticker

/-! ## What a store takes -/

/-- **The bars that start within range are on windows**, wherever in 64 bits the ticks start. -/
theorem fits_of_mem (hw : 0 < w.millis) (hcalls : ∀ a, Call.add a ∈ calls → Signed a.start) {b : Bar}
    (hb : b ∈ (calls.foldl after (fresh w bound)).history ticker) (hholds : w.Holds b.start) :
    b.Fits w ticker := by
  rw [← run_fresh] at hb
  obtain ⟨hticker, t, ht, hstart⟩ := Ledger.start_of_mem hb
  rw [hstart] at hholds
  exact ⟨hticker, hstart ▸ hholds, hstart ▸ hholds.dvd_floor hw (hcalls t ht)⟩

/-- **Which valid ticks a store adds**, after any calls: those that end within the window they start in,
when the newest bar does not start later. -/
theorem isOk_add_iff (hw : 0 < w.millis) (hcalls : ∀ a, Call.add a ∈ calls → Signed a.start)
    (ht : t.Within w) (hvalid : t.validate = .ok ()) :
    let s := calls.foldl after (fresh w bound)
    (∀ front ∈ (s.history t.ticker).head?, w.Holds front.start) →
      ((s.add t).isOk = true ↔ t.stop ≤ w.edge (w.of t) ∧
        ∀ front ∈ (s.history t.ticker).head?, front.start ≤ t.start) := by
  intro s hholds
  have hwindow : s.window = w := window_foldl (fresh w bound) calls
  have hfits : ∀ front ∈ (s.history t.ticker).head?, front.Fits w t.ticker := fun front hfront =>
    fits_of_mem hw hcalls (List.mem_of_mem_head? hfront) (hholds front hfront)
  have htakes : (∃ r, History.add w s.bound (s.history t.ticker) t = .ok r) ↔ _ :=
    History.takes_iff hw hfits ht
  rw [and_iff_right hvalid, ← hwindow, ← exists_add_iff, hwindow] at htakes
  rw [← htakes]
  cases s.add t with
  | error r => simp [Except.isOk, Except.toBool]
  | ok added => simp [Except.isOk, Except.toBool]

end Store

end TapeReader
