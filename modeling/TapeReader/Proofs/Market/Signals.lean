import TapeReader.Proofs.Market.Closure
import TapeReader.Proofs.Market.Ledger

/-!
# Signals of closure

* `Store.signals`: the windows whose closure a call signals.
* `Ledger.add_answer`: **the answer to a tick, after any calls**, and no closure is lost.
* `Store.closure_signals`: **how often the closure of a window is signalled**: by every tick that
  reaches its edge, and once at least when a later window has been opened.
-/

namespace TapeReader

namespace Store

/-- The windows of its ticker whose closure a tick signals. -/
def signals (s : Store) (t : Tick) : List ℤ :=
  match s.add t with
  | .ok (s', true) => History.signalled s.window (s.history t.ticker) (s'.history t.ticker)
  | _ => []

variable {s s' : Store} {t : Tick} {closed : Bool} {start : ℤ}

theorem mem_signals_iff (h : s.add t = .ok (s', closed)) :
    start ∈ s.signals t ↔ closed = true ∧
      start ∈ History.signalled s.window (s.history t.ticker) (s'.history t.ticker) := by
  unfold signals
  rw [h]
  cases closed <;> simp

theorem signals_of_error {r : Refusal} (h : s.add t = .error r) : s.signals t = [] := by
  unfold signals
  rw [h]

end Store

namespace Ledger

variable {l : Ledger} {w : Window} {bound : ℕ} {s : Store} {t : Tick} {closed : Bool}
  {calls : List Call} {ticker : String} {start : ℤ}

theorem Faithful.mem_signals_iff (hw : 0 < w.millis) (hbound : 1 ≤ bound)
    (hl : l.Faithful w bound) (ht : t.Within w) (h : l.store.add t = .ok (s, closed)) (start : ℤ) :
    start ∈ l.store.signals t ↔ w.ClosedBy (l.takenOf t.ticker) t start := by
  rw [Store.mem_signals_iff h, hl.window_eq]
  exact (hl.records t.ticker).mem_signalled_iff hw hbound (hl.holds t.ticker) ht (hl.grows hw ht h).2.1

/-- A tick taken is of no earlier window than those before it. -/
theorem Faithful.of_le (hw : 0 < w.millis) (hbound : 1 ≤ bound) (hl : l.Faithful w bound)
    (ht : t.Within w) (h : l.store.add t = .ok (s, closed)) :
    ∀ a ∈ l.takenOf t.ticker, w.of a ≤ w.of t := by
  have hr := (hl.records t.ticker).grows hw hbound ht (hl.grows hw ht h).2.1
  exact (Window.inOrder_concat.1 hr.inOrder).2

/-- Since the last clear, and before any tick of a later window was taken, a call has signalled
that a window closed. -/
def ReportedInTime (w : Window) (bound : ℕ) (calls : List Call) (ticker : String) (start : ℤ) :
    Prop :=
  ∃ before t after, calls = before ++ .add t :: after ∧ .clear ∉ after ∧ t.ticker = ticker ∧
    start ∈ ((fresh w bound).run before).store.signals t ∧
      ∀ a ∈ ((fresh w bound).run before).takenOf ticker, w.of a ≤ start

theorem ReportedInTime.concat (h : ReportedInTime w bound calls ticker start) (t : Tick) :
    ReportedInTime w bound (calls ++ [.add t]) ticker start := by
  obtain ⟨before, u, after, rfl, hclear, hu⟩ := h
  exact ⟨before, u, after ++ [.add t], by simp, by simpa using hclear, hu⟩

/-- **No closure is lost.** A window that has been closed has been reported in time. -/
theorem reportedInTime (hw : w.InRange) (hbound : 1 ≤ bound) (hcalls : ∀ c ∈ calls, c.Within w)
    (ticker : String) (start : ℤ)
    (h : 0 < w.closures (((fresh w bound).run calls).takenOf ticker) start) :
    ReportedInTime w bound calls ticker start := by
  induction calls using List.reverseRecOn with
  | nil => simp [run, fresh, takenOf, Window.closures_nil] at h
  | append_singleton calls c ih =>
    have hm := hw.millis_pos
    obtain ⟨hcalls, hc⟩ := List.forall_mem_append.1 hcalls
    have ih := ih hcalls
    have hl : ((fresh w bound).run calls).Faithful w bound := faithful_run hw hbound hcalls
    rw [run_concat] at h
    set l := (fresh w bound).run calls
    cases c with
    | clear => simp [step, takenOf, Window.closures_nil] at h
    | add t =>
      have ht : t.Within w := hc _ (List.mem_singleton_self _)
      cases hadd : l.store.add t with
      | error r => rw [step_of_error hadd] at h; exact (ih h).concat t
      | ok r =>
        obtain ⟨s, closed⟩ := r
        rw [step_of_ok hadd] at h
        by_cases hticker : t.ticker = ticker
        · subst hticker
          rw [takenOf_concat_self] at h
          have hle := hl.of_le hm hbound ht hadd
          -- the window is closed by this tick, or was closed before
          by_cases hclosed : w.ClosedBy (l.takenOf t.ticker) t start
          · have hsignal := (hl.mem_signals_iff hm hbound ht hadd start).2 hclosed
            exact ⟨calls, t, [], rfl, by simp, rfl, hsignal, Window.ClosedBy.le hle hclosed⟩
          · rw [(Window.closures_concat hle start).2 hclosed] at h
            exact (ih h).concat t
        · rw [takenOf_concat_of_ne hticker] at h
          exact (ih h).concat t

/-- **The answer to a tick.** After any calls, a tick that is taken is answered with yes just when
it reaches the edge of its window, or is the first of its window, has an earlier window before it,
and no tick has reached the edge of the last one. So a window that a later one has followed has
been reported, and by no later a call than the one that opened the next. -/
theorem add_answer (hw : w.InRange) (hbound : 1 ≤ bound) (calls : List Call)
    (hcalls : ∀ c ∈ calls, c.Within w) :
    let l := (fresh w bound).run calls
    (∀ t s closed, t.Within w → l.store.add t = .ok (s, closed) →
      (closed = true ↔ t.stop = w.edge (w.of t) ∨
        (∀ a ∈ l.takenOf t.ticker, w.of a ≠ w.of t) ∧
          ∃ start, w.LastBefore (l.takenOf t.ticker) (w.of t) start ∧
            ¬ w.Reached (l.takenOf t.ticker) start)) ∧
      ∀ ticker, ∀ a ∈ l.takenOf ticker, ∀ later ∈ l.takenOf ticker, w.of a < w.of later →
        ReportedInTime w bound calls ticker (w.of a) := by
  intro l
  have hl : l.Faithful w bound := faithful_run hw hbound hcalls
  refine ⟨fun t s closed ht hadd => ?_, fun ticker a ha later hlater hlt => ?_⟩
  · have hm := hw.millis_pos
    exact (hl.records t.ticker).closed_iff hm hbound (hl.grows hm ht hadd).2.1
  · have hsuper : w.Superseded (l.takenOf ticker) (w.of a) := ⟨⟨a, ha, rfl⟩, later, hlater, hlt⟩
    exact reportedInTime hw hbound hcalls ticker _ (Window.closures_pos_iff.2 (Or.inr hsuper))

/-- After a clear and a tick refused, the first tick of a window follows one that no tick filled. -/
theorem add_answer_following :
    let calls := [.add (Tick.plain 0 10000), .clear, .add (Tick.plain 0 5000),
      .add (Tick.plain (-5000) (-4000)), .add (Tick.plain 2000 3000)]
    let l := (fresh ⟨10⟩ 1).run calls
    let t := Tick.plain 30000 31000
    (Window.InRange ⟨10⟩ ∧ 1 ≤ 1 ∧ (∀ c ∈ calls, c.Within ⟨10⟩) ∧ t.Within ⟨10⟩) ∧
      (l.store.add t).map (·.2) = .ok true ∧
      ∃ start, Window.LastBefore ⟨10⟩ (l.takenOf "SPCE") 30000 start ∧
        ¬ Window.Reached ⟨10⟩ (l.takenOf "SPCE") start := by
  intro calls l t
  have hyes : (l.store.add t).map (·.2) = .ok true := by decide +kernel
  have hcalls : ∀ c ∈ calls, c.Within ⟨10⟩ := by decide +kernel
  have ht : t.Within ⟨10⟩ := by decide +kernel
  refine ⟨⟨by decide, le_rfl, hcalls, ht⟩, hyes, ?_⟩
  cases hadd : l.store.add t with
  | error r => rw [hadd] at hyes; cases hyes
  | ok r =>
    obtain ⟨s, closed⟩ := r
    rw [hadd] at hyes
    have hmeaning := ((add_answer (by decide) le_rfl calls hcalls).1 t s closed ht hadd).1
      (Except.ok.inj hyes)
    rcases hmeaning with hstop | ⟨-, hlast⟩
    · exact absurd hstop (by decide)
    · exact hlast

end Ledger

namespace Store

/-- How many ticks signal that a window of a ticker closed. -/
def signalCount (ticker : String) (start : ℤ) : Store → List Tick → ℕ
  | _, [] => 0
  | s, t :: rest =>
    (if t.ticker = ticker ∧ start ∈ s.signals t then 1 else 0) +
      signalCount ticker start (s.feed t) rest

variable {w : Window} {bound : ℕ}

theorem signalCount_concat (ticker : String) (start : ℤ) (s : Store) (ticks : List Tick)
    (t : Tick) :
    signalCount ticker start s (ticks ++ [t]) = signalCount ticker start s ticks +
      if t.ticker = ticker ∧ start ∈ (ticks.foldl feed s).signals t then 1 else 0 := by
  induction ticks generalizing s with
  | nil => exact Nat.add_comm _ _
  | cons u rest ih =>
    rw [List.cons_append, signalCount, signalCount, ih, Nat.add_assoc]
    rfl

/-- **The closure of a window is signalled as often as ticks close it.** -/
theorem signalCount_eq (hw : w.InRange) (hbound : 1 ≤ bound) {ticks : List Tick}
    (hticks : ∀ t ∈ ticks, t.Within w) (ticker : String) (start : ℤ) :
    signalCount ticker start (fresh w bound) ticks =
      w.closures (((Ledger.fresh w bound).run (ticks.map .add)).takenOf ticker) start := by
  induction ticks using List.reverseRecOn with
  | nil =>
    simp [signalCount, Ledger.run, Ledger.fresh, Ledger.takenOf, Window.closures_nil]
  | append_singleton ticks t ih =>
    have hm := hw.millis_pos
    obtain ⟨hticks, ht⟩ := List.forall_mem_append.1 hticks
    have ht : t.Within w := ht t (List.mem_singleton_self t)
    have ih := ih hticks
    have hl : ((Ledger.fresh w bound).run (ticks.map .add)).Faithful w bound :=
      Ledger.faithful_run hw hbound (List.forall_mem_map.2 hticks)
    rw [signalCount_concat, ih, List.map_append, List.map_singleton, Ledger.run_concat,
      show fresh w bound = (Ledger.fresh w bound).store from rfl, ← Ledger.run_store]
    set l := (Ledger.fresh w bound).run (ticks.map .add)
    cases hadd : l.store.add t with
    | error r => rw [Ledger.step_of_error hadd, signals_of_error hadd]; simp
    | ok r =>
      obtain ⟨s, closed⟩ := r
      rw [Ledger.step_of_ok hadd]
      by_cases hticker : t.ticker = ticker
      · subst hticker
        have hclose := Window.closures_concat (hl.of_le hm hbound ht hadd) start
        have hsignal := hl.mem_signals_iff hm hbound ht hadd start
        rw [Ledger.takenOf_concat_self]
        by_cases hclosed : w.ClosedBy (l.takenOf t.ticker) t start
        · rw [if_pos ⟨rfl, hsignal.2 hclosed⟩, hclose.1 hclosed]
        · rw [if_neg fun h => hclosed (hsignal.1 h.2), hclose.2 hclosed, Nat.add_zero]
      · rw [Ledger.takenOf_concat_of_ne hticker, if_neg fun h => hticker h.1, Nat.add_zero]

/-- **Two ticks that reach the edge of one window both signal its closure.** The closure of a
window is signalled by every tick that reaches its edge, and once at least when a later window has
been opened: at most once just when at most one tick has reached the edge. -/
theorem closure_signals (hw : w.InRange) (hbound : 1 ≤ bound) (ticks : List Tick)
    (hticks : ∀ t ∈ ticks, t.Within w) (ticker : String) (start : ℤ) :
    let taken := ((Ledger.fresh w bound).run (ticks.map .add)).takenOf ticker
    let count := signalCount ticker start (fresh w bound) ticks
    count = max (w.reaches taken start) (if w.Superseded taken start then 1 else 0) ∧
      (count ≤ 1 ↔ w.reaches taken start ≤ 1) := by
  intro taken count
  have hcount : count = w.closures taken start := signalCount_eq hw hbound hticks ticker start
  refine ⟨hcount, ?_⟩
  rw [hcount]
  unfold Window.closures
  split <;> omega

/-- A window closed by the first tick, again by the second, and then followed by a third. -/
theorem closure_signals_twice :
    let ticks := [Tick.plain (-10000) 0, Tick.plain (-5000) 0, Tick.plain 0 1000]
    let taken := ((Ledger.fresh ⟨10⟩ 1).run (ticks.map .add)).takenOf "SPCE"
    (Window.InRange ⟨10⟩ ∧ 1 ≤ 1 ∧ ∀ t ∈ ticks, t.Within ⟨10⟩) ∧
      signalCount "SPCE" (-10000) (fresh ⟨10⟩ 1) ticks = 2 ∧
      (signalCount "SPCE" (-10000) (fresh ⟨10⟩ 1) ticks ≤ 1 ↔
        (⟨10⟩ : Window).reaches taken (-10000) ≤ 1) :=
  ⟨by decide +kernel, by decide +kernel,
    (closure_signals (by decide) (by decide) _ (by decide +kernel) "SPCE" (-10000)).2⟩

/-- That the closure of a window is signalled at most once does not hold of every run: a tick that
comes twice, and spans its window, signals it twice. -/
theorem closure_signalled_again :
    ¬ ∀ (w : Window) (bound : ℕ) (ticks : List Tick) (ticker : String) (start : ℤ),
      0 < w.secs → 1 ≤ bound → signalCount ticker start (fresh w bound) ticks ≤ 1 := by
  intro h
  have hle := h ⟨10⟩ 30 [Tick.plain 0 10000, Tick.plain 0 10000] "SPCE" 0 (by decide) (by decide)
  revert hle
  decide +kernel

end Store

end TapeReader
