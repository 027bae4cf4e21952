import TapeReader.Proofs.Market.Ledger

/-!
# Closed windows

* `Window.ClosedBy`: the windows that a tick closes, in terms of the ticks before it.
* `Window.closures`: how often ticks have closed a window; `closures_concat` counts on by one tick.
* `History.signalled`: the windows whose closure the answer to a tick signals.
* `Records.closed_iff`: **what the answer means**, in terms of the ticks taken before.
* `Records.mem_signalled_iff`: **the windows signalled are those that the tick closes.**
-/

namespace TapeReader

namespace Window

/-- The latest window, before some window, that a tick starts in. -/
def LastBefore (w : Window) (ticks : List Tick) (limit start : ℤ) : Prop :=
  IsGreatest {earlier | earlier < limit ∧ ∃ a ∈ ticks, w.of a = earlier} start

/-- A tick closes a window, after other ticks: its own when it reaches the edge, and the last one
before when it is the first of its own and no tick has reached the edge of that one. -/
def ClosedBy (w : Window) (ticks : List Tick) (t : Tick) (start : ℤ) : Prop :=
  (start = w.of t ∧ t.stop = w.edge (w.of t)) ∨
    (∀ a ∈ ticks, w.of a ≠ w.of t) ∧ w.LastBefore ticks (w.of t) start ∧ ¬ w.Reached ticks start

/-- A window has been followed by a later one. -/
def Superseded (w : Window) (ticks : List Tick) (start : ℤ) : Prop :=
  (∃ a ∈ ticks, w.of a = start) ∧ ∃ later ∈ ticks, start < w.of later

instance (w : Window) (ticks : List Tick) (start : ℤ) : Decidable (w.Superseded ticks start) :=
  inferInstanceAs (Decidable (_ ∧ _))

/-- How many ticks of a window have reached its edge. -/
def reaches (w : Window) (ticks : List Tick) (start : ℤ) : ℕ :=
  ticks.countP fun a => w.of a = start ∧ a.stop = w.edge start

/-- How often a window has been closed: by every tick that reached its edge, and once at least
when a later one has followed. -/
def closures (w : Window) (ticks : List Tick) (start : ℤ) : ℕ :=
  max (w.reaches ticks start) (if w.Superseded ticks start then 1 else 0)

variable {w : Window} {ticks : List Tick} {t : Tick} {start : ℤ}

theorem reached_iff : w.Reached ticks start ↔ 0 < w.reaches ticks start := by
  simp [Reached, reaches, List.countP_pos_iff]

theorem closures_nil (w : Window) (start : ℤ) : w.closures [] start = 0 := by
  simp [closures, reaches, Superseded]

theorem closures_pos_iff :
    0 < w.closures ticks start ↔ w.Reached ticks start ∨ w.Superseded ticks start := by
  unfold closures
  rw [lt_max_iff, ← reached_iff]
  split <;> simp_all

/-- After ticks of earlier windows, the last window before is one that none has followed. -/
theorem lastBefore_iff (hlt : ∀ a ∈ ticks, w.of a < w.of t) :
    w.LastBefore ticks (w.of t) start ↔
      (∃ a ∈ ticks, w.of a = start) ∧ ∀ a ∈ ticks, w.of a ≤ start := by
  constructor
  · rintro ⟨⟨-, hmem⟩, hmax⟩
    exact ⟨hmem, fun a ha => hmax ⟨hlt a ha, a, ha, rfl⟩⟩
  · rintro ⟨⟨a, ha, rfl⟩, hmax⟩
    refine ⟨⟨hlt a ha, a, ha, rfl⟩, ?_⟩
    rintro _ ⟨-, b, hb, rfl⟩
    exact hmax b hb

theorem not_superseded (hmax : ∀ a ∈ ticks, w.of a ≤ start) : ¬ w.Superseded ticks start := by
  rintro ⟨-, later, hlater, hlt⟩
  have := hmax later hlater
  omega

/-- A tick closes another window than its own by being the first to follow it, when no tick has
reached its edge. -/
theorem closedBy_iff_of_ne (hle : ∀ a ∈ ticks, w.of a ≤ w.of t) (hne : w.of t ≠ start) :
    w.ClosedBy ticks t start ↔ ¬ w.Reached ticks start ∧ ¬ w.Superseded ticks start ∧
      w.Superseded (ticks ++ [t]) start := by
  unfold ClosedBy
  rw [or_iff_right fun h => hne h.1.symm]
  constructor
  · rintro ⟨hnone, hlast, hnot⟩
    obtain ⟨⟨a, ha, rfl⟩, hmax⟩ :=
      (lastBefore_iff fun a ha => lt_of_le_of_ne (hle a ha) (hnone a ha)).1 hlast
    exact ⟨hnot, not_superseded hmax, ⟨a, by simp [ha], rfl⟩, t, by simp, hlast.1.1⟩
  · rintro ⟨hnot, hsup, ⟨a, ha, rfl⟩, later, hlater, hlt⟩
    have ha : a ∈ ticks := by
      rcases List.mem_append.1 ha with ha | ha
      · exact ha
      · rw [List.mem_singleton.1 ha] at hne; exact absurd rfl hne
    have hmax : ∀ b ∈ ticks, w.of b ≤ w.of a := by
      intro b hb; by_contra hgt; push Not at hgt
      exact hsup ⟨⟨a, ha, rfl⟩, b, hb, hgt⟩
    have hat : w.of a < w.of t := lt_of_le_of_ne (hle a ha) hne.symm
    have hlt : ∀ b ∈ ticks, w.of b < w.of t := fun b hb => lt_of_le_of_lt (hmax b hb) hat
    exact ⟨fun b hb => (hlt b hb).ne, (lastBefore_iff hlt).2 ⟨⟨a, ha, rfl⟩, hmax⟩, hnot⟩

theorem reaches_concat : w.reaches (ticks ++ [t]) start =
    w.reaches ticks start + if w.of t = start ∧ t.stop = w.edge start then 1 else 0 := by
  simp [reaches, List.countP_append]

theorem Superseded.concat (hsup : w.Superseded ticks start) :
    w.Superseded (ticks ++ [t]) start := by
  obtain ⟨⟨a, ha, heq⟩, later, hlater, hlt⟩ := hsup
  exact ⟨⟨a, by simp [ha], heq⟩, later, by simp [hlater], hlt⟩

theorem ClosedBy.le (hle : ∀ a ∈ ticks, w.of a ≤ w.of t) (h : w.ClosedBy ticks t start) :
    ∀ a ∈ ticks, w.of a ≤ start := by
  rcases h with ⟨rfl, -⟩ | ⟨hnone, hlast, -⟩
  · exact hle
  · exact ((lastBefore_iff fun a ha => lt_of_le_of_ne (hle a ha) (hnone a ha)).1 hlast).2

/-- **A tick closes a window once more, or not at all.** -/
theorem closures_concat (hle : ∀ a ∈ ticks, w.of a ≤ w.of t) (start : ℤ) :
    (w.ClosedBy ticks t start → w.closures (ticks ++ [t]) start = w.closures ticks start + 1) ∧
      (¬ w.ClosedBy ticks t start → w.closures (ticks ++ [t]) start = w.closures ticks start) := by
  by_cases hof : w.of t = start
  · -- its own window: none has followed it, before or after
    have hmax : ∀ a ∈ ticks ++ [t], w.of a ≤ start := by
      intro a ha
      rcases List.mem_append.1 ha with ha | ha
      · exact hof ▸ hle a ha
      · rw [List.mem_singleton.1 ha, hof]
    have hnew := not_superseded hmax
    have hold := not_superseded fun a ha => hmax a (List.mem_append_left _ ha)
    have hclosed : w.ClosedBy ticks t start ↔ t.stop = w.edge start := by
      unfold ClosedBy
      rw [hof, or_iff_left fun h => (h.2.1.1.1).false, and_iff_right rfl]
    unfold closures
    rw [reaches_concat, if_neg hnew, if_neg hold, hclosed]
    constructor <;> intro hstop <;> simp [hof, hstop]
  · -- an earlier window: the tick may be the first to follow it
    have hreach : w.reaches (ticks ++ [t]) start = w.reaches ticks start := by
      rw [reaches_concat]; simp [hof]
    unfold closures
    rw [closedBy_iff_of_ne hle hof, reached_iff, hreach]
    by_cases hold : w.Superseded ticks start
    · simp [hold, hold.concat]
    · by_cases hnew : w.Superseded (ticks ++ [t]) start
      · simp only [hold, hnew, if_true, if_false, not_false_eq_true, and_true]
        constructor <;> intro h <;> omega
      · simp [hold, hnew]

end Window

namespace History

/-- The windows whose closure an answer of yes signals, from a history to the one after it: that
of the newest bar before, if it was pending and is not the newest any more, and that of the newest
bar after, if it spans its whole window. -/
def signalled (w : Window) (before after : History) : List ℤ :=
  let superseded := match before, after with
    | front :: _, next :: _ =>
      if front.closureReported = false ∧ next.start ≠ front.start then [front.start] else []
    | _, _ => []
  let closed := match after with
    | next :: _ => if next.isClosed w.millis then [next.start] else []
    | [] => []
  superseded ++ closed

variable {w : Window} {bound : ℕ} {h h' : History} {t : Tick} {closed : Bool} {ticks : List Tick}
  {start : ℤ} {front : Bar} {older : History}

/-- Before a later window, the last one is that of the newest bar. -/
theorem Records.lastBefore_iff (hr : Records w bound ticks (front :: older)) {limit : ℤ}
    (hlt : ∀ a ∈ ticks, w.of a < limit) :
    w.LastBefore ticks limit start ↔ start = front.start := by
  have hfront : w.LastBefore ticks limit front.start := by
    obtain ⟨a, ha, heq⟩ := hr.front_mem
    refine ⟨⟨heq ▸ hlt a ha, a, ha, heq⟩, ?_⟩
    rintro _ ⟨-, b, hb, rfl⟩
    exact hr.of_le_front hb
  exact ⟨fun hlast => hlast.unique hfront, fun heq => heq ▸ hfront⟩

/-- **The bar whose closure is pending** is that of the last window before a later one, when no
tick has reached the edge of that window. -/
theorem Records.waiting_iff (hr : Records w bound ticks h) (hbound : 1 ≤ bound) {limit : ℤ}
    (hlt : ∀ a ∈ ticks, w.of a < limit) :
    (∃ front ∈ h.head?, start = front.start ∧ front.closureReported = false) ↔
      w.LastBefore ticks limit start ∧ ¬ w.Reached ticks start := by
  cases h with
  | nil =>
    rw [hr.eq_nil hbound]
    simp [Window.LastBefore, IsGreatest]
  | cons front older =>
    have hrep : front.closureReported = true ↔ w.Reached ticks front.start := hr.reported front rfl
    rw [hr.lastBefore_iff hlt]
    constructor
    · rintro ⟨_, ⟨⟩, rfl, hfalse⟩
      exact ⟨rfl, fun hreached => by rw [hrep.2 hreached] at hfalse; cases hfalse⟩
    · rintro ⟨rfl, hnot⟩
      exact ⟨front, rfl, rfl, Bool.not_eq_true _ ▸ mt hrep.1 hnot⟩

theorem Records.pending_iff (hr : Records w bound ticks h) (hbound : 1 ≤ bound) {limit : ℤ}
    (hlt : ∀ a ∈ ticks, w.of a < limit) :
    pending h = true ↔ ∃ start, w.LastBefore ticks limit start ∧ ¬ w.Reached ticks start := by
  rw [pending_eq_true_iff]
  constructor
  · rintro ⟨front, hfront, hfalse⟩
    exact ⟨front.start, (hr.waiting_iff hbound hlt).1 ⟨front, hfront, rfl, hfalse⟩⟩
  · rintro ⟨start, hlast⟩
    obtain ⟨front, hfront, -, hfalse⟩ := (hr.waiting_iff hbound hlt).2 hlast
    exact ⟨front, hfront, hfalse⟩

/-- **The meaning of the answer.** A tick is answered with yes when it reaches the edge of its
window, or when it is the first of its window and none before it reached the edge of the last
window before. -/
theorem Records.closed_iff (hw : 0 < w.millis) (hbound : 1 ≤ bound) (hr : Records w bound ticks h)
    (hg : Grows w bound t h h' closed) :
    closed = true ↔ t.stop = w.edge (w.of t) ∨
      (∀ a ∈ ticks, w.of a ≠ w.of t) ∧
        ∃ start, w.LastBefore ticks (w.of t) start ∧ ¬ w.Reached ticks start := by
  cases hg with
  | merged hticker hstart hin hfit =>
    have hof := hr.of_eq_front hstart hin
    rw [hof, beq_iff_eq, or_iff_left]
    rintro ⟨hnone, -⟩
    obtain ⟨a, ha, heq⟩ := hr.front_mem
    exact hnone a ha heq
  | opened hlate hfit =>
    have hlt : ∀ a ∈ ticks, w.of a < w.of t := fun a ha => hr.of_lt hw hbound hlate ha
    rw [Bool.or_eq_true, beq_iff_eq, hr.pending_iff hbound hlt]
    exact or_congr_right (and_iff_right fun a ha => (hlt a ha).ne).symm

/-- A tick that merges signals at most the window of the newest bar. -/
theorem mem_signalled_joined (hw : 0 < w.millis) (hfront : w.Holds front.start) (ht : t.Within w)
    (older : History) : start ∈ signalled w (front :: older) (front.joined w t :: older) ↔
      start = front.start ∧ t.stop = w.edge front.start := by
  have hself : (front.joined w t).start = front.start := rfl
  have hclosed : (front.joined w t).isClosed w.millis = (t.stop == w.edge front.start) := by
    rw [Bar.joined, Bar.isClosed_mark, isClosed_fold hw hfront ht]
  unfold signalled
  by_cases hstop : t.stop = w.edge front.start <;> simp [hself, hclosed, hstop]

/-- A tick that opens a bar signals its own window and the one of the bar before. -/
theorem mem_signalled_opened (hw : 0 < w.millis) (ht : t.Within w) (h rest : History)
    (hne : ∀ front ∈ h.head?, front.start ≠ w.of t) :
    start ∈ signalled w h (Bar.opened w t :: rest) ↔
      (start = w.of t ∧ t.stop = w.edge (w.of t)) ∨
        ∃ front ∈ h.head?, start = front.start ∧ front.closureReported = false := by
  have hself : (Bar.opened w t).start = w.of t := rfl
  have hclosed : (Bar.opened w t).isClosed w.millis = (t.stop == w.edge (w.of t)) := by
    rw [← isClosed_opened hw ht]
    rfl
  unfold signalled
  rw [List.mem_append, or_comm]
  refine or_congr ?_ ?_
  · by_cases hstop : t.stop = w.edge (w.of t) <;> simp [hself, hclosed, hstop]
  · cases h with
    | nil => simp
    | cons front older =>
      have hne := hne front rfl
      by_cases hrep : front.closureReported = false <;> simp [hself, hrep, Ne.symm hne]

/-- **The windows signalled are those that the tick closes.** -/
theorem Records.mem_signalled_iff (hw : 0 < w.millis) (hbound : 1 ≤ bound)
    (hr : Records w bound ticks h) (hh : ∀ b ∈ h, w.Holds b.start) (ht : t.Within w)
    (hg : Grows w bound t h h' closed) :
    (closed = true ∧ start ∈ signalled w h h') ↔ w.ClosedBy ticks t start := by
  unfold Window.ClosedBy
  cases hg with
  | merged hticker hstart hin hfit =>
    have hof := hr.of_eq_front hstart hin
    rw [mem_signalled_joined hw (hh _ List.mem_cons_self) ht, hof, beq_iff_eq, or_iff_left]
    · exact and_iff_right_of_imp And.right
    · rintro ⟨hnone, -⟩
      obtain ⟨a, ha, heq⟩ := hr.front_mem
      exact hnone a ha heq
  | opened hlate hfit =>
    have hlt : ∀ a ∈ ticks, w.of a < w.of t := fun a ha => hr.of_lt hw hbound hlate ha
    obtain ⟨k, rfl⟩ : ∃ k, bound = k + 1 := ⟨bound - 1, by omega⟩
    have hne : ∀ front ∈ h.head?, front.start ≠ w.of t := by
      intro front hfront
      obtain ⟨older, rfl⟩ := List.head?_eq_some_iff.1 hfront
      obtain ⟨a, ha, heq⟩ := hr.front_mem
      rw [← heq]; exact (hlt a ha).ne
    rw [List.take_succ_cons, mem_signalled_opened hw ht h _ hne,
      and_iff_right fun a ha => (hlt a ha).ne, ← hr.waiting_iff hbound hlt]
    refine and_iff_right_of_imp ?_
    rw [Bool.or_eq_true, beq_iff_eq, pending_eq_true_iff]
    rintro (⟨-, hstop⟩ | ⟨front, hfront, -, hfalse⟩)
    · exact Or.inl hstop
    · exact Or.inr ⟨front, hfront, hfalse⟩

end History

end TapeReader
