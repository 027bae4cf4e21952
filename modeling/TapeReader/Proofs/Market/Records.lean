import TapeReader.Proofs.Decimal.Value
import TapeReader.Proofs.Market.History

/-!
# What a history records

* `Bar.Sums`: what a bar shows of the ticks it was made of.
* `History.Records`: **a history shows the ticks it has taken, window by window, for the latest
  windows.** It holds of no ticks and no bars, and is kept by every tick taken
  (`Records.grows`).
-/

namespace TapeReader

namespace Bar

/-- A bar shows these ticks: the sum of their volumes in 64 bits, the extremes of their prices, how they
began and how they ended. -/
structure Sums (b : Bar) (ticks : List Tick) : Prop where
  volume : b.volume = wrap (ticks.map Tick.volume).sum
  openPrice : ticks.head?.map Tick.openPrice = some b.openPrice
  dayOpen : ticks.head?.map Tick.dayOpen = some b.dayOpen
  closePrice : ticks.getLast?.map Tick.closePrice = some b.closePrice
  vwap : ticks.getLast?.map Tick.vwap = some b.vwap
  accumulatedVolume : ticks.getLast?.map Tick.accumulatedVolume = some b.accumulatedVolume
  stop : ticks.getLast?.map Tick.stop = some b.stop
  high : b.high.IsMax (ticks.map Tick.high)
  low : b.low.IsMin (ticks.map Tick.low)

variable {b : Bar} {ticks : List Tick}

theorem sums_ofTick {t : Tick} (ht : Signed t.volume) : (ofTick t).Sums [t] := by
  constructor
  case volume => simp [ofTick, wrap_of_signed ht]
  case high => exact Decimal.isMax_singleton _
  case low => exact Decimal.isMin_singleton _
  all_goals simp [ofTick]

/-- **One more tick folded in is one more tick shown.** -/
theorem Sums.fold (h : b.Sums ticks) (t : Tick) : (b.fold t).Sums (ticks ++ [t]) := by
  have hne : ticks ≠ [] := by
    rintro rfl; simpa using h.openPrice
  have hhead : (ticks ++ [t]).head? = ticks.head? := List.head?_append_of_ne_nil _ hne
  constructor
  · simp [Bar.fold, h.volume, wrap_wrap_add]
  · rw [hhead]; exact h.openPrice
  · rw [hhead]; exact h.dayOpen
  · simp [Bar.fold]
  · simp [Bar.fold]
  · simp [Bar.fold]
  · simp [Bar.fold]
  · rw [List.map_append]; exact Decimal.isMax_max h.high _
  · rw [List.map_append]; exact Decimal.isMin_min h.low _

/-- The volumes that 64 bits hold are summed exactly. -/
theorem Sums.volume_eq (h : b.Sums ticks) (hfits : Signed (ticks.map Tick.volume).sum) :
    b.volume = (ticks.map Tick.volume).sum :=
  h.volume.trans (wrap_of_signed hfits)

/-- Where a bar starts, and what has been reported of it, is not about its ticks. -/
theorem Sums.mark (h : b.Sums ticks) (start : ℤ) (reported : Bool) :
    ({ b with start, closureReported := reported } : Bar).Sums ticks :=
  ⟨h.volume, h.openPrice, h.dayOpen, h.closePrice, h.vwap, h.accumulatedVolume, h.stop, h.high,
    h.low⟩

end Bar

namespace History

variable {w : Window} {bound : ℕ} {h h' : History} {t : Tick} {closed : Bool}

/-- **A history records some ticks of one ticker**, given in the order in which they were taken:
its bars are those of the latest windows, each shows the ticks of its window, and the newest has
been reported exactly when a tick has reached the edge of its window. -/
structure Records (w : Window) (bound : ℕ) (ticks : List Tick) (h : History) : Prop where
  inOrder : w.InOrder ticks
  starts : h.map Bar.start = (w.starts ticks).take bound
  sums : ∀ b ∈ h, b.Sums (w.ticksIn ticks b.start)
  reported : ∀ front ∈ h.head?, front.closureReported = true ↔ w.Reached ticks front.start

theorem records_nil (w : Window) (bound : ℕ) : Records w bound [] [] :=
  ⟨by simp [Window.InOrder], by simp [Window.starts_nil], by simp, by simp⟩

variable {ticks : List Tick} {front : Bar} {older : History}

/-- A history without bars has taken no ticks. -/
theorem Records.eq_nil (hr : Records w bound ticks []) (hbound : 1 ≤ bound) : ticks = [] := by
  have hs := hr.starts
  cases ticks with
  | nil => rfl
  | cons a ticks =>
    have hmem : w.of a ∈ w.starts (a :: ticks) := Window.mem_starts.2 ⟨a, by simp, rfl⟩
    rw [List.map_nil, eq_comm, List.take_eq_nil_iff] at hs
    rcases hs with hs | hs
    · omega
    · rw [hs] at hmem; simp at hmem

/-- The newest bar is the one of the latest window. -/
theorem Records.starts_front (hr : Records w bound ticks (front :: older)) :
    ∃ rest, w.starts ticks = front.start :: rest := by
  have hs := hr.starts
  cases hst : w.starts ticks with
  | nil => rw [hst] at hs; simp at hs
  | cons first rest =>
    rw [hst] at hs
    cases bound with
    | zero => simp at hs
    | succ k =>
      rw [List.take_succ_cons, List.map_cons] at hs
      exact ⟨rest, by rw [(List.cons.inj hs).1]⟩

theorem Records.front_mem (hr : Records w bound ticks (front :: older)) :
    ∃ a ∈ ticks, w.of a = front.start := by
  obtain ⟨rest, hs⟩ := hr.starts_front
  exact Window.mem_starts.1 (hs ▸ List.mem_cons_self)

theorem Records.of_le_front (hr : Records w bound ticks (front :: older)) {a : Tick}
    (ha : a ∈ ticks) : w.of a ≤ front.start := by
  obtain ⟨rest, hs⟩ := hr.starts_front
  have hsorted := Window.starts_sorted hr.inOrder
  have hmem : w.of a ∈ w.starts ticks := Window.mem_starts.2 ⟨a, ha, rfl⟩
  rw [hs] at hsorted hmem
  rcases List.mem_cons.1 hmem with h | h
  · exact h.le
  · exact ((List.pairwise_cons.1 hsorted).1 _ h).le

theorem Records.dvd_front (hr : Records w bound ticks (front :: older)) :
    w.millis ∣ front.start := by
  obtain ⟨a, -, ha⟩ := hr.front_mem
  exact ha ▸ Window.dvd_align w a.start

/-- No two bars are of one window. -/
theorem Records.nodup (hr : Records w bound ticks h) : (h.map Bar.start).Nodup := by
  rw [hr.starts]
  exact (List.nodup_dedup _).sublist (List.take_sublist _ _)

/-- **Read bar by bar, oldest first, the ticks are all there**, less those of windows that have
dropped out of the history. -/
theorem Records.ticks_eq (hr : Records w bound ticks h) :
    ∃ evicted, ticks = evicted ++ h.reverse.flatMap (fun b => w.ticksIn ticks b.start) ∧
      ((w.starts ticks).length ≤ bound → evicted = []) := by
  have hbars : h.reverse.flatMap (fun b => w.ticksIn ticks b.start) =
      ((w.starts ticks).take bound).reverse.flatMap (w.ticksIn ticks) := by
    rw [← hr.starts, ← List.map_reverse, List.flatMap_map]
  refine ⟨((w.starts ticks).drop bound).reverse.flatMap (w.ticksIn ticks), ?_, fun hle => ?_⟩
  · rw [hbars, ← List.flatMap_append, ← List.reverse_append, List.take_append_drop,
      Window.flatMap_ticksIn hr.inOrder]
  · rw [List.drop_eq_nil_of_le hle]; rfl

/-- A tick in the newest bar's span is of its window. -/
theorem Records.of_eq_front (hr : Records w bound ticks (front :: older))
    (hstart : front.start ≤ t.start) (hin : t.start < w.edge front.start) :
    w.of t = front.start :=
  Window.align_eq hr.dvd_front hstart hin

/-- A tick after the newest bar's window is of a later window than any before it. -/
theorem Records.of_lt (hw : 0 < w.millis) (hbound : 1 ≤ bound) (hr : Records w bound ticks h)
    (hlate : ∀ front ∈ h.head?, w.edge front.start ≤ t.start) {a : Tick} (ha : a ∈ ticks) :
    w.of a < w.of t := by
  cases h with
  | nil => rw [hr.eq_nil hbound] at ha; simp at ha
  | cons front older =>
    have hedge := Window.le_align hw (Window.dvd_edge hr.dvd_front) (hlate front rfl)
    have hle := hr.of_le_front ha
    unfold Window.edge at hedge
    unfold Window.of at hle ⊢
    omega

theorem Records.merged (hr : Records w bound ticks (front :: older))
    (hstart : front.start ≤ t.start) (hin : t.start < w.edge front.start) :
    Records w bound (ticks ++ [t]) (front.joined w t :: older) := by
  have hof := hr.of_eq_front hstart hin
  have hmem : w.of t ∈ w.starts ticks := by
    rw [Window.mem_starts, hof]; exact hr.front_mem
  refine ⟨Window.inOrder_concat.2 ⟨hr.inOrder, fun a ha => ?_⟩, ?_, ?_, ?_⟩
  · rw [hof]; exact hr.of_le_front ha
  · rw [Window.starts_concat_of_mem hmem, ← hr.starts]; rfl
  · intro b hb
    rcases List.mem_cons.1 hb with rfl | hb
    · -- the newest bar shows one tick more
      have hsum := (hr.sums front (by simp)).fold t
      rw [show (front.joined w t).start = w.of t from hof.symm, Window.ticksIn_concat_self, hof]
      exact hsum.mark _ _
    · -- an older bar is of another window
      have hne : w.of t ≠ b.start := by
        have hnodup := hr.nodup
        rw [List.map_cons, List.nodup_cons] at hnodup
        rw [hof]; intro heq
        exact hnodup.1 (heq ▸ List.mem_map_of_mem hb)
      rw [Window.ticksIn_concat_of_ne hne]
      exact hr.sums b (by simp [hb])
  · rintro x ⟨⟩
    have hrep := hr.reported front rfl
    have hst : (front.joined w t).start = front.start := rfl
    have hcl : (front.joined w t).closureReported =
      (front.closureReported || t.stop == w.edge front.start) := rfl
    rw [hst, hcl, Bool.or_eq_true, hrep, beq_iff_eq, Window.reached_concat, and_iff_right hof]

theorem take_cons_take {α : Type} (x : α) (l : List α) (n : ℕ) :
    (x :: l.take n).take n = (x :: l).take n := by
  cases n with
  | zero => rfl
  | succ k => rw [List.take_succ_cons, List.take_succ_cons, List.take_take, min_eq_left (by omega)]

theorem Records.opened (hw : 0 < w.millis) (hbound : 1 ≤ bound) (ht : t.Within w)
    (hr : Records w bound ticks h)
    (hlate : ∀ front ∈ h.head?, w.edge front.start ≤ t.start) :
    Records w bound (ticks ++ [t]) ((Bar.opened w t :: settle h).take bound) := by
  have hlt : ∀ a ∈ ticks, w.of a < w.of t := fun a ha => hr.of_lt hw hbound hlate ha
  have hnew : w.of t ∉ w.starts ticks := by
    rw [Window.mem_starts]
    rintro ⟨a, ha, heq⟩
    have := hlt a ha; omega
  have hin : w.ticksIn (ticks ++ [t]) (w.of t) = [t] := by
    rw [Window.ticksIn_concat_self, Window.ticksIn_eq_nil hnew, List.nil_append]
  refine ⟨Window.inOrder_concat.2 ⟨hr.inOrder, fun a ha => (hlt a ha).le⟩, ?_, ?_, ?_⟩
  · rw [Window.starts_concat_of_notMem hnew, List.map_take, List.map_cons, map_start_settle,
      hr.starts, take_cons_take]
    rfl
  · intro b hb
    rcases List.mem_cons.1 (List.mem_of_mem_take hb) with rfl | hb
    · rw [show (Bar.opened w t).start = w.of t from rfl, hin]
      exact (Bar.sums_ofTick ht.volume).mark _ _
    · -- a bar from before may be marked as reported, and shows what it showed
      obtain ⟨b', hb', reported, rfl⟩ := mem_settle hb
      have hne : w.of t ≠ b'.start := by
        intro heq
        have : b'.start ∈ (w.starts ticks).take bound := by
          rw [← hr.starts]; exact List.mem_map_of_mem hb'
        exact hnew (heq ▸ List.mem_of_mem_take this)
      rw [Window.ticksIn_concat_of_ne hne]
      exact (hr.sums b' hb').mark _ _
  · obtain ⟨k, rfl⟩ : ∃ k, bound = k + 1 := ⟨bound - 1, by omega⟩
    rintro x ⟨⟩
    have hst : (Bar.opened w t).start = w.of t := rfl
    have hcl : (Bar.opened w t).closureReported = (t.stop == w.edge (w.of t)) := rfl
    have hfirst : ¬ w.Reached ticks (w.of t) := by
      rintro ⟨a, ha, heq, -⟩
      have := hlt a ha; omega
    rw [hst, hcl, beq_iff_eq, Window.reached_concat, or_iff_right hfirst, and_iff_right rfl]

/-- **Each tick taken is recorded.** -/
theorem Records.grows (hw : 0 < w.millis) (hbound : 1 ≤ bound) (ht : t.Within w)
    (hr : Records w bound ticks h) (hg : Grows w bound t h h' closed) : Records w bound (ticks ++ [t]) h' := by
  cases hg with
  | merged hticker hstart hin hfit => exact hr.merged hstart hin
  | opened hlate hfit => exact hr.opened hw hbound ht hlate

end History

end TapeReader
