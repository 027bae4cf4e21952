import TapeReader.Market.History
import TapeReader.Proofs.Market.Tick
import TapeReader.Proofs.Market.Window

/-!
# Histories, tick by tick

* `History.Grows`: the two ways in which a history takes a tick, into its newest bar or as a new
  one.
* `History.add_eq_ok_iff`: **a history takes a tick in one of these ways, and refuses it
  otherwise.**
-/

namespace TapeReader

namespace Bar

/-- The bar of a tick in its window, reported when the tick reaches the window's edge. -/
def opened (w : Window) (t : Tick) : Bar :=
  { ofTick t with start := w.of t, closureReported := t.stop == w.edge (w.of t) }

/-- The bar with a tick folded in, reported at the latest when the tick reaches the edge. -/
def joined (w : Window) (b : Bar) (t : Tick) : Bar :=
  { b.fold t with closureReported := b.closureReported || t.stop == w.edge b.start }

/-- Whether a bar is closed is not about who has been told. -/
theorem isClosed_mark (b : Bar) (reported : Bool) (windowMillis : ℤ) :
    isClosed { b with closureReported := reported } windowMillis = b.isClosed windowMillis := rfl

end Bar

namespace History

/-- How a history takes a tick. -/
inductive Grows (w : Window) (bound : ℕ) (t : Tick) : History → History → Bool → Prop
  /-- The tick lies in the window of the newest bar. -/
  | merged {front : Bar} {older : History} (hticker : front.ticker = t.ticker)
      (hstart : front.start ≤ t.start) (hin : t.start < w.edge front.start)
      (hfit : t.stop ≤ w.edge front.start) :
      Grows w bound t (front :: older) (front.joined w t :: older)
        (t.stop == w.edge front.start)
  /-- The tick starts after the newest bar's window, and fits in its own. -/
  | opened {h : History} (hlate : ∀ front ∈ h.head?, w.edge front.start ≤ t.start)
      (hfit : t.stop ≤ w.edge (w.of t)) :
      Grows w bound t h ((Bar.opened w t :: settle h).take bound)
        (t.stop == w.edge (w.of t) || pending h)

variable {w : Window} {bound : ℕ} {h h' : History} {t : Tick} {closed : Bool}

/-- How far a tick reaches into the window that it starts in. -/
theorem span_ofTick (hw : 0 < w.millis) (ht : t.Within w) :
    Bar.span { Bar.ofTick t with start := w.of t } = t.stop - w.of t :=
  ht.stop.wrap_sub hw (ht.start.holds hw)

/-- A fresh bar is closed when its tick reaches the edge of the window. -/
theorem isClosed_opened (hw : 0 < w.millis) (ht : t.Within w) :
    Bar.isClosed { Bar.ofTick t with start := w.of t } w.millis = (t.stop == w.edge (w.of t)) := by
  rw [Bool.eq_iff_iff, Bar.isClosed, span_ofTick hw ht]
  simp only [Window.edge, beq_iff_eq]
  omega

/-- A bar is closed by a tick that reaches the edge of the window. -/
theorem isClosed_fold (hw : 0 < w.millis) {front : Bar} (hfront : w.Holds front.start)
    (ht : t.Within w) : (front.fold t).isClosed w.millis = (t.stop == w.edge front.start) := by
  have hspan : (front.fold t).span = t.stop - front.start := ht.stop.wrap_sub hw hfront
  rw [Bool.eq_iff_iff, Bar.isClosed, hspan]
  simp only [Window.edge, beq_iff_eq]
  omega

theorem openBar_eq_ok_iff (hw : 0 < w.millis) (ht : t.Within w) {b : Bar} :
    openBar w t = .ok b ↔ t.stop ≤ w.edge (w.of t) ∧ b = Bar.opened w t := by
  unfold openBar
  rw [if_neg hw.ne', ht.start.floor_eq hw, show w.align t.start = w.of t from rfl]
  simp only [isClosed_opened hw ht, span_ofTick hw ht]
  by_cases hfit : t.stop ≤ w.edge (w.of t)
  · have hspan : ¬ w.millis < t.stop - w.of t := by unfold Window.edge at hfit; omega
    rw [if_neg hspan]
    simp [hfit, Bar.opened, eq_comm]
  · have hspan : w.millis < t.stop - w.of t := by unfold Window.edge at hfit; omega
    rw [if_pos hspan]
    simp [hfit]

theorem merge_eq_ok_iff (hw : 0 < w.millis) {front b : Bar} (hfront : w.Holds front.start)
    (ht : t.Within w) :
    merge w front t = .ok (b, closed) ↔ front.start ≤ t.start ∧ t.stop ≤ w.edge front.start ∧
      front.ticker = t.ticker ∧ b = front.joined w t ∧ closed = (t.stop == w.edge front.start) := by
  unfold merge
  rw [ht.stop.wrap_sub hw hfront]
  by_cases hstart : t.start < front.start
  · simp [hstart]
  by_cases hfit : w.millis < t.stop - front.start
  · have : ¬ t.stop ≤ w.edge front.start := by unfold Window.edge; omega
    simp [hstart, hfit, this]
  have hle : front.start ≤ t.start := by omega
  have hedge : t.stop ≤ w.edge front.start := by unfold Window.edge; omega
  rw [if_neg hstart, if_neg hfit]
  unfold Bar.absorb
  by_cases hticker : front.ticker = t.ticker
  · simp only [hticker, if_true, bind, Except.bind, isClosed_fold hw hfront ht, hle, hedge, true_and]
    simp [Bar.joined, Bar.fold, eq_comm]
  · simp [hticker, bind, Except.bind]

/-- Opening a bar for a tick, and putting it in front. -/
theorem open_eq_ok_iff (hw : 0 < w.millis) (ht : t.Within w) :
    (openBar w t).map (push bound h) = .ok (h', closed) ↔ t.stop ≤ w.edge (w.of t) ∧
      h' = (Bar.opened w t :: settle h).take bound ∧
        closed = (t.stop == w.edge (w.of t) || pending h) := by
  cases ho : openBar w t with
  | error r =>
    have hfit : ¬ t.stop ≤ w.edge (w.of t) := fun hfit => by
      have := (openBar_eq_ok_iff hw ht).2 ⟨hfit, rfl⟩
      rw [ho] at this; cases this
    simp [Except.map, hfit]
  | ok b =>
    obtain ⟨hfit, rfl⟩ := (openBar_eq_ok_iff hw ht).1 ho
    simp only [Except.map, push, Except.ok.injEq, Prod.mk.injEq, hfit, true_and]
    exact and_congr eq_comm eq_comm

/-- A tick after the newest bar's window can only open a bar. -/
theorem grows_iff_of_late (hlate : ∀ front ∈ h.head?, w.edge front.start ≤ t.start) :
    Grows w bound t h h' closed ↔ t.stop ≤ w.edge (w.of t) ∧
      h' = (Bar.opened w t :: settle h).take bound ∧
        closed = (t.stop == w.edge (w.of t) || pending h) := by
  constructor
  · intro hg
    cases hg with
    | merged hticker hstart hin hfit =>
      have := hlate _ rfl
      omega
    | opened _ hfit => exact ⟨hfit, rfl, rfl⟩
  · rintro ⟨hfit, rfl, rfl⟩
    exact .opened hlate hfit

/-- A tick before the end of the newest bar's window can only merge into the bar. -/
theorem grows_iff_of_lt {front : Bar} {older : History} (hlt : t.start < w.edge front.start) :
    Grows w bound t (front :: older) h' closed ↔ front.start ≤ t.start ∧
      t.stop ≤ w.edge front.start ∧ front.ticker = t.ticker ∧ h' = front.joined w t :: older ∧
        closed = (t.stop == w.edge front.start) := by
  constructor
  · intro hg
    cases hg with
    | merged hticker hstart hin hfit => exact ⟨hstart, hfit, hticker, rfl, rfl⟩
    | opened hlate hfit =>
      have := hlate front rfl
      omega
  · rintro ⟨hstart, hfit, hticker, rfl, rfl⟩
    exact .merged hticker hstart hlt hfit

/-- **A history takes a tick in one of two ways, and refuses it in all other cases.** The instants are
near enough to each other for 64 bits. -/
theorem add_eq_ok_iff (hw : 0 < w.millis) (hh : ∀ front ∈ h.head?, w.Holds front.start)
    (ht : t.Within w) :
    add w bound h t = .ok (h', closed) ↔ t.validate = .ok () ∧ Grows w bound t h h' closed := by
  unfold add
  cases hv : t.validate with
  | error v => simp
  | ok =>
    rw [and_iff_right rfl]
    cases h with
    | nil => rw [grows_iff_of_late (by simp), ← open_eq_ok_iff hw ht]
    | cons front older =>
      have hfront := hh front rfl
      dsimp only
      rw [ht.start.wrap_sub hw hfront]
      by_cases hin : t.start - front.start < w.millis
      · have hlt : t.start < w.edge front.start := by unfold Window.edge; omega
        rw [if_pos hin, grows_iff_of_lt hlt]
        cases hm : merge w front t with
        | error v =>
          simp only [reduceCtorEq, false_iff]
          rintro ⟨hstart, hfit, hticker, -⟩
          rw [(merge_eq_ok_iff hw hfront ht).2 ⟨hstart, hfit, hticker, rfl, rfl⟩] at hm
          cases hm
        | ok r =>
          obtain ⟨b, c⟩ := r
          obtain ⟨hstart, hfit, hticker, rfl, rfl⟩ := (merge_eq_ok_iff hw hfront ht).1 hm
          simp [hstart, hfit, hticker, eq_comm]
      · have hle : w.edge front.start ≤ t.start := by unfold Window.edge; omega
        rw [if_neg hin, open_eq_ok_iff hw ht, grows_iff_of_late]
        rintro x ⟨⟩
        exact hle

/-- A history of windows that have a length does not give up on a tick. -/
theorem add_ne_zeroWindow (hw : w.millis ≠ 0) (bound : ℕ) (h : History) (t : Tick) :
    add w bound h t ≠ .error .zeroWindow := by
  have hopen : (openBar w t).map (push bound h) ≠ .error .zeroWindow := by
    unfold openBar
    rw [if_neg hw]
    dsimp only
    split <;> simp [Except.map]
  unfold add
  split
  · simp
  · split
    · split
      · split <;> simp
      · exact hopen
    · exact hopen

/-! ## What settling and opening keep -/

theorem map_start_settle (h : History) : (settle h).map Bar.start = h.map Bar.start := by
  cases h <;> rfl

/-- Settling only marks a bar. -/
theorem mem_settle {b : Bar} (hb : b ∈ settle h) :
    ∃ b' ∈ h, ∃ reported, b = { b' with closureReported := reported } := by
  cases h with
  | nil => simp [settle] at hb
  | cons front older =>
    rcases List.mem_cons.1 hb with rfl | hb
    · exact ⟨front, by simp, true, rfl⟩
    · exact ⟨b, by simp [hb], b.closureReported, rfl⟩

/-- A tick merged into a bar is folded in, whatever 64 bits make of the instants. -/
theorem eq_fold_of_merge {front b : Bar} (hm : merge w front t = .ok (b, closed)) :
    ∃ reported, b = { front.fold t with closureReported := reported } := by
  unfold merge Bar.absorb at hm
  by_cases hticker : front.ticker = t.ticker
  · rw [if_pos hticker] at hm
    split at hm
    · cases hm
    · split at hm
      · cases hm
      · cases hm
        exact ⟨_, rfl⟩
  · rw [if_neg hticker] at hm
    split at hm
    · cases hm
    · split at hm <;> cases hm

/-- **What every bar of a history keeps**, in whatever way a tick is added: what the bar of the tick has,
and what stays when the tick is folded in. -/
theorem forall_of_add {P : Bar → Prop}
    (hopen : ∀ reported,
      P { Bar.ofTick t with start := w.floor t.start, closureReported := reported })
    (hfold : ∀ b, P b → P (b.fold t))
    (hmark : ∀ b reported, P b → P { b with closureReported := reported })
    (hadd : add w bound h t = .ok (h', closed)) (hh : ∀ b ∈ h, P b) : ∀ b ∈ h', P b := by
  have hpush : (openBar w t).map (push bound h) = .ok (h', closed) → ∀ b ∈ h', P b := by
    intro hpushed b hb
    unfold openBar at hpushed
    split at hpushed
    · cases hpushed
    dsimp only at hpushed
    split at hpushed
    · cases hpushed
    · cases hpushed
      rcases List.mem_cons.1 (List.mem_of_mem_take hb) with rfl | hb
      · exact hopen _
      · obtain ⟨b', hb', reported, rfl⟩ := mem_settle hb
        exact hmark b' reported (hh b' hb')
  unfold add at hadd
  cases hv : t.validate with
  | error v => rw [hv] at hadd; cases hadd
  | ok =>
    rw [hv] at hadd
    cases h with
    | nil => exact hpush hadd
    | cons front older =>
      obtain ⟨hfront, hrest⟩ := List.forall_mem_cons.1 hh
      dsimp only at hadd
      split at hadd
      · cases hm : merge w front t with
        | error v => rw [hm] at hadd; cases hadd
        | ok r =>
          obtain ⟨b, c⟩ := r
          rw [hm] at hadd
          cases hadd
          obtain ⟨reported, rfl⟩ := eq_fold_of_merge hm
          exact List.forall_mem_cons.2 ⟨hmark _ reported (hfold front hfront), hrest⟩
      · exact hpush hadd

/-- The windows of a history stay within range. -/
theorem Grows.holds (hw : 0 < w.millis) (ht : t.Within w) (hg : Grows w bound t h h' closed)
    (hh : ∀ b ∈ h, w.Holds b.start) : ∀ b ∈ h', w.Holds b.start := by
  cases hg with
  | merged hticker hstart hin hfit => exact List.forall_mem_cons.2 (List.forall_mem_cons.1 hh)
  | opened hlate hfit =>
    intro b hb
    rcases List.mem_cons.1 (List.mem_of_mem_take hb) with rfl | hb
    · exact ht.start.holds hw
    · obtain ⟨b', hb', reported, rfl⟩ := mem_settle hb
      exact hh b' hb'

theorem pending_eq_true_iff :
    pending h = true ↔ ∃ front ∈ h.head?, front.closureReported = false := by
  cases h <;> simp [pending]

end History

end TapeReader
