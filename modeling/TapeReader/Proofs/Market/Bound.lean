import TapeReader.Proofs.Market.Ledger

/-!
# The bound of a history

A history keeps its newest bars, as many as its bound allows, and a store asks for no other bar.

* `Store.after`, `Store.answers`: a store after a call, and what it answers to calls in turn.
* `Store.cut`: a store with its histories cut to a bound.
* `Store.add_cut`: a store that is cut takes a tick as it did before.
* `Store.bound_only_shows`: **a store with a smaller bound shows less and does the same.**
-/

namespace TapeReader

namespace History

variable {k K : ℕ}

theorem pending_take (hk : 1 ≤ k) (h : History) : pending (h.take k) = pending h := by
  obtain ⟨n, rfl⟩ : ∃ n, k = n + 1 := ⟨k - 1, by omega⟩
  cases h <;> rfl

theorem settle_take (k : ℕ) (h : History) : settle (h.take k) = (settle h).take k := by
  cases k with
  | zero => rfl
  | succ n => cases h <;> rfl

/-- A bar put in front of what is left of a history. -/
theorem push_take (hk : 1 ≤ k) (hle : k ≤ K) (h : History) (bar : Bar) :
    push k (h.take k) bar = ((push K h bar).1.take k, (push K h bar).2) := by
  unfold push
  rw [pending_take hk, settle_take, take_cons_take, List.take_take, min_eq_left hle]

/-- **A history that is cut takes a tick as it did before.** No tick is held against any bar but the
newest one, which a cut leaves. -/
theorem add_take (hk : 1 ≤ k) (hle : k ≤ K) (w : Window) (h : History) (t : Tick) :
    add w k (h.take k) t = (add w K h t).map fun (h', closed) => (h'.take k, closed) := by
  obtain ⟨n, rfl⟩ : ∃ n, k = n + 1 := ⟨k - 1, by omega⟩
  have hopen : ∀ h : History, (openBar w t).map (push (n + 1) (h.take (n + 1))) =
      ((openBar w t).map (push K h)).map fun (h', closed) => (h'.take (n + 1), closed) := by
    intro h
    cases openBar w t with
    | error e => rfl
    | ok bar => exact congrArg Except.ok (push_take hk hle h bar)
  unfold add
  cases t.validate with
  | error v => rfl
  | ok u =>
    cases h with
    | nil => exact hopen []
    | cons front older =>
      have hopen := hopen (front :: older)
      rw [List.take_succ_cons] at hopen ⊢
      dsimp only
      by_cases hin : wrap (t.start - front.start) < w.millis
      · rw [if_pos hin, if_pos hin]
        cases merge w front t with
        | error v => rfl
        | ok r => rfl
      · rw [if_neg hin, if_neg hin]
        exact hopen

/-- A tick adds one bar at most. -/
theorem length_le_of_add {w : Window} {bound : ℕ} {h h' : History} {t : Tick} {closed : Bool}
    (hadd : add w bound h t = .ok (h', closed)) : h'.length ≤ h.length + 1 := by
  have hpush : (openBar w t).map (push bound h) = .ok (h', closed) → h'.length ≤ h.length + 1 := by
    intro hpushed
    cases hopen : openBar w t with
    | error r => rw [hopen] at hpushed; cases hpushed
    | ok bar =>
      rw [hopen] at hpushed
      cases hpushed
      have hsettled : (settle h).length = h.length := by cases h <;> rfl
      rw [← hsettled]
      exact List.length_take_le' _ _
  unfold add at hadd
  cases hv : t.validate with
  | error v => rw [hv] at hadd; cases hadd
  | ok =>
    rw [hv] at hadd
    cases h with
    | nil => exact hpush hadd
    | cons front older =>
      dsimp only at hadd
      split at hadd
      · cases hm : merge w front t with
        | error v => rw [hm] at hadd; cases hadd
        | ok r =>
          rw [hm] at hadd
          cases hadd
          exact Nat.le_succ _
      · exact hpush hadd

end History

namespace Store

/-- A store after a call. -/
def after (s : Store) : Call → Store
  | .add t => s.feed t
  | .clear => s.clear

/-- What a store answers to a call: whether a window closed, or why the tick was refused. There is
no answer to a clear. -/
def answer (s : Store) : Call → Option (Except Refusal Bool)
  | .add t => some ((s.add t).map (·.2))
  | .clear => none

/-- The answers to calls in turn. -/
def answers : Store → List Call → List (Option (Except Refusal Bool))
  | _, [] => []
  | s, c :: rest => s.answer c :: answers (s.after c) rest

/-- The store with a bound, and its histories cut to it. -/
def cut (k : ℕ) (s : Store) : Store :=
  { s with bound := k, histories := s.histories.map fun (name, h) => (name, h.take k) }

variable {k K : ℕ} {s : Store} {w : Window} {ticker : String}

theorem history_cut (k : ℕ) (s : Store) (ticker : String) :
    (s.cut k).history ticker = (s.history ticker).take k := by
  unfold history cut
  dsimp only
  induction s.histories with
  | nil => simp
  | cons entry rest ih =>
    rw [List.map_cons, List.lookup_cons, List.lookup_cons]
    cases ticker == entry.1 with
    | true => rfl
    | false => exact ih

theorem tickers_cut (k : ℕ) (s : Store) : (s.cut k).tickers = s.tickers := by
  unfold tickers cut
  rw [List.map_map]
  rfl

theorem put_cut (k : ℕ) (ticker : String) (h : History) (histories : List (String × History)) :
    put ticker (h.take k) (histories.map fun (name, h) => (name, h.take k)) =
      (put ticker h histories).map fun (name, h) => (name, h.take k) := by
  induction histories with
  | nil => rfl
  | cons entry rest ih =>
    obtain ⟨name, old⟩ := entry
    rw [List.map_cons]
    unfold put
    by_cases hname : name = ticker
    · rw [if_pos hname, if_pos hname, List.map_cons]
    · rw [if_neg hname, if_neg hname, List.map_cons, ih]

/-- A store that is cut takes a tick as it did before. -/
theorem add_cut (hk : 1 ≤ k) (hle : k ≤ s.bound) (t : Tick) :
    (s.cut k).add t = (s.add t).map fun (s', closed) => (s'.cut k, closed) := by
  unfold add
  rw [history_cut, show (s.cut k).window = s.window from rfl, show (s.cut k).bound = k from rfl,
    History.add_take hk hle]
  cases History.add s.window s.bound (s.history t.ticker) t with
  | error e => rfl
  | ok r =>
    obtain ⟨h, closed⟩ := r
    refine congrArg (fun histories => Except.ok (({ s with bound := k, histories } : Store), closed)) ?_
    exact put_cut k t.ticker h s.histories

theorem answer_cut (hk : 1 ≤ k) (hle : k ≤ s.bound) (c : Call) :
    (s.cut k).answer c = s.answer c := by
  cases c with
  | clear => rfl
  | add t =>
    simp only [answer, add_cut hk hle]
    cases s.add t <;> rfl

theorem after_cut (hk : 1 ≤ k) (hle : k ≤ s.bound) (c : Call) :
    (s.cut k).after c = (s.after c).cut k := by
  cases c with
  | clear => rfl
  | add t =>
    simp only [after, feed, add_cut hk hle]
    cases s.add t <;> rfl

theorem after_bound (s : Store) (c : Call) : (s.after c).bound = s.bound := by
  cases c with
  | clear => rfl
  | add t => exact feed_bound s t

/-- The windows stay as they are. -/
theorem window_foldl (s : Store) (calls : List Call) : (calls.foldl after s).window = s.window := by
  induction calls generalizing s with
  | nil => rfl
  | cons c rest ih =>
    have hfirst : (s.after c).window = s.window := by
      cases c with
      | clear => rfl
      | add t => exact feed_window s t
    rw [List.foldl_cons, ih, hfirst]

/-- **Calls to a store that is cut**: it answers as it did before, and goes on cut. -/
theorem calls_cut (hk : 1 ≤ k) (hle : k ≤ s.bound) (calls : List Call) :
    (s.cut k).answers calls = s.answers calls ∧
      calls.foldl after (s.cut k) = (calls.foldl after s).cut k := by
  induction calls generalizing s with
  | nil => exact ⟨rfl, rfl⟩
  | cons c rest ih =>
    obtain ⟨hanswers, hafter⟩ := ih (s := s.after c) (by rw [after_bound]; exact hle)
    refine ⟨?_, ?_⟩
    · rw [answers, answers, answer_cut hk hle, after_cut hk hle, hanswers]
    · rw [List.foldl_cons, List.foldl_cons, after_cut hk hle, hafter]

/-- Two stores of different bounds, called in the same way from the start. -/
theorem calls_fresh (hk : 1 ≤ k) (hle : k ≤ K) (w : Window) (calls : List Call) :
    (fresh w k).answers calls = (fresh w K).answers calls ∧
      calls.foldl after (fresh w k) = (calls.foldl after (fresh w K)).cut k :=
  calls_cut (s := fresh w K) hk hle calls

end Store

/-! ## Whole histories -/

/-- The bars of a history go down. -/
theorem History.Records.sorted {w : Window} {bound : ℕ} {ticks : List Tick} {h : History}
    (hr : Records w bound ticks h) : (h.map Bar.start).Pairwise (· > ·) := by
  rw [hr.starts]
  exact (Window.starts_sorted hr.inOrder).sublist (List.take_sublist _ _)

namespace Ledger

/-- The store of a ledger goes on by its calls. -/
theorem run_calls (l : Ledger) (calls : List Call) :
    (l.run calls).store = calls.foldl Store.after l.store := by
  induction calls using List.reverseRecOn with
  | nil => rfl
  | append_singleton calls c ih =>
    rw [run_concat, List.foldl_concat, ← ih]
    cases c with
    | clear => rfl
    | add t => exact step_store _ t

end Ledger

namespace Store

variable {k K : ℕ} {w : Window} {calls : List Call} {ticker : String}

/-- A store that is called is that of a ledger. -/
theorem run_fresh (w : Window) (K : ℕ) (calls : List Call) :
    ((Ledger.fresh w K).run calls).store = calls.foldl after (fresh w K) := Ledger.run_calls _ calls

/-- A history of a store records the ticks taken. -/
theorem records_foldl (hw : w.InRange) (hbound : 1 ≤ K) (hcalls : ∀ c ∈ calls, c.Within w)
    (ticker : String) :
    History.Records w K (((Ledger.fresh w K).run calls).takenOf ticker)
      ((calls.foldl after (fresh w K)).history ticker) :=
  run_fresh w K calls ▸ (Ledger.faithful_run hw hbound hcalls).records ticker

/-- A call adds one bar at most to a history. -/
theorem length_history_after_le (s : Store) (c : Call) (ticker : String) :
    ((s.after c).history ticker).length ≤ (s.history ticker).length + 1 := by
  cases c with
  | clear => exact Nat.zero_le _
  | add t =>
    show ((s.feed t).history ticker).length ≤ _
    cases ha : s.add t with
    | error r =>
      rw [feed_of_error ha]
      exact Nat.le_succ _
    | ok r =>
      obtain ⟨s', closed⟩ := r
      rw [feed_of_ok ha]
      obtain ⟨h, hadd, rfl⟩ := add_eq_ok_iff.1 ha
      rw [history_put]
      split
      · rename_i heq
        exact heq ▸ History.length_le_of_add hadd
      · exact Nat.le_succ _

/-- No history has more bars than there were calls. -/
theorem length_history_le (w : Window) (K : ℕ) (calls : List Call) (ticker : String) :
    ((calls.foldl after (fresh w K)).history ticker).length ≤ calls.length := by
  induction calls using List.reverseRecOn with
  | nil => exact Nat.le_refl 0
  | append_singleton calls c ih =>
    rw [List.foldl_concat, List.length_append, List.length_singleton]
    exact (length_history_after_le _ c ticker).trans (Nat.succ_le_succ ih)

/-- A history with a larger bound, cut. -/
theorem history_take (hk : 1 ≤ k) (hle : k ≤ K) (calls : List Call) (ticker : String) :
    (calls.foldl after (fresh w k)).history ticker =
      ((calls.foldl after (fresh w K)).history ticker).take k := by
  rw [(calls_fresh hk hle w calls).2, history_cut]

/-- The history of a ticker with nothing dropped: the store has room for a bar a call. -/
def whole (w : Window) (calls : List Call) (ticker : String) : History :=
  (calls.foldl after (fresh w calls.length)).history ticker

/-- **A history is the front of the whole history.** -/
theorem history_eq_take_whole (hk : 1 ≤ k) (calls : List Call)
    (ticker : String) :
    (calls.foldl after (fresh w k)).history ticker = (whole w calls ticker).take k := by
  unfold whole
  rcases le_total k calls.length with hle | hle
  · exact history_take hk hle calls ticker
  · rcases Nat.eq_zero_or_pos calls.length with hnil | hpos
    · rw [List.length_eq_zero_iff.1 hnil]
      simp [fresh, history]
    · -- there is more room than bars, in either store
      have hlength : ((calls.foldl after (fresh w k)).history ticker).length ≤ calls.length :=
        length_history_le w k calls ticker
      rw [history_take hpos hle, List.take_take, List.take_of_length_le]
      omega

/-- **The bound of a history is only a view.** Of two stores with windows of one length, one keeps
fewer bars than the other, or as many. They answer any calls in the same way, refusals with all that
they say, and know the same tickers. A history of the one is the front of the history of the other,
of no more bars than the bound allows; and where 64 bits hold the instants, what it has dropped began
before all that it has kept. -/
theorem bound_only_shows (hk : 1 ≤ k) (hle : k ≤ K) (w : Window) (calls : List Call) :
    let small := calls.foldl after (fresh w k)
    let large := calls.foldl after (fresh w K)
    (fresh w k).answers calls = (fresh w K).answers calls ∧
      small.tickers = large.tickers ∧
      ∀ ticker, small.history ticker = (large.history ticker).take k ∧
        (small.history ticker).length ≤ k ∧
        (w.InRange → (∀ c ∈ calls, c.Within w) →
          ∀ kept ∈ small.history ticker, ∀ dropped ∈ (large.history ticker).drop k,
            dropped.start < kept.start) := by
  intro small large
  obtain ⟨hanswers, hsmall⟩ : _ ∧ small = large.cut k := calls_fresh hk hle w calls
  refine ⟨hanswers, ?_, fun ticker => ?_⟩
  · rw [hsmall, tickers_cut]
  · have htake : small.history ticker = (large.history ticker).take k :=
      history_take hk hle calls ticker
    refine ⟨htake, ?_, fun hw hcalls kept hkept dropped hdropped => ?_⟩
    · rw [htake]
      exact List.length_take_le _ _
    · -- the whole of the larger history goes down, so the part cut off is below the part kept
      have hsorted : ((large.history ticker).map Bar.start).Pairwise (· > ·) :=
        (records_foldl hw (hk.trans hle) hcalls ticker).sorted
      rw [← List.take_append_drop k (large.history ticker), List.map_append,
        List.pairwise_append] at hsorted
      rw [htake] at hkept
      exact hsorted.2.2 _ (List.mem_map_of_mem hkept) _ (List.mem_map_of_mem hdropped)

/-- Room for one bar and for three: the second tick evicts the bar whose closure it reports, the third
is refused. -/
theorem bound_only_shows_one :
    let calls := [.add (Tick.plain 0 5000), .add (Tick.plain 10000 11000),
      .add (Tick.plain 5000 6000), .clear, .add (Tick.plain 0 10000), .add (Tick.plain 20000 21000)]
    let small := calls.foldl after (fresh ⟨10⟩ 1)
    let large := calls.foldl after (fresh ⟨10⟩ 3)
    (1 ≤ 1 ∧ 1 ≤ 3 ∧ Window.InRange ⟨10⟩ ∧ ∀ c ∈ calls, c.Within ⟨10⟩) ∧
      (fresh ⟨10⟩ 1).answers calls = [some (.ok false), some (.ok true),
        some (.error (.violation (.predates "SPCE" 5000 10000))), none, some (.ok true),
        some (.ok false)] ∧
      (fresh ⟨10⟩ 1).answers calls = (fresh ⟨10⟩ 3).answers calls ∧
      (large.history "SPCE").map Bar.start = [20000, 0] ∧
      small.history "SPCE" = (large.history "SPCE").take 1 ∧
      ∀ kept ∈ small.history "SPCE", ∀ dropped ∈ (large.history "SPCE").drop 1,
        dropped.start < kept.start := by
  intro calls small large
  have hcalls : ∀ c ∈ calls, c.Within ⟨10⟩ := by decide +kernel
  obtain ⟨hanswers, -, hhistory⟩ :=
    bound_only_shows (k := 1) (K := 3) le_rfl (by decide) ⟨10⟩ calls
  obtain ⟨htake, -, hdropped⟩ := hhistory "SPCE"
  exact ⟨⟨le_rfl, by decide, by decide, hcalls⟩, by decide +kernel, hanswers, by decide +kernel,
    htake, hdropped (by decide) hcalls⟩

end Store

end TapeReader
