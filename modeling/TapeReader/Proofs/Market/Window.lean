import TapeReader.Market.Bar
import TapeReader.Proofs.Word

/-!
# Windows

The windows of one length tile the time line, before the epoch too.

* `InRange`, `Reaches`, `Holds`, `Tick.Within`: windows, instants and ticks so far from the ends of 64 bits
  that nothing a history works out runs over.
* `align_le`, `lt_align_add`, `align_eq`: an instant lies in the window that it falls in, and in no
  other.
* `starts`: the windows that some ticks start in, each once, the latest first.
* `starts_sorted`: they go down strictly when the ticks came in order of their windows.
* `flatMap_ticksIn`: **taken window by window, the ticks are all there, in order.**
-/

namespace TapeReader

namespace Window

/-- Windows of a length that milliseconds can count in 64 bits. -/
structure InRange (w : Window) : Prop where
  pos : 0 < w.secs
  fits : w.secs * 1000 < 2 ^ 63

instance : DecidablePred InRange := fun w =>
  decidable_of_iff (0 < w.secs ∧ w.secs * 1000 < 2 ^ 63)
    ⟨fun h => ⟨h.1, h.2⟩, fun h => ⟨h.pos, h.fits⟩⟩

/-- An instant that keeps clear of the middle of either half of 64 bits by half a window. -/
def Reaches (w : Window) (instant : ℤ) : Prop :=
  -2 ^ 63 < 2 * instant - w.millis ∧ 2 * instant + w.millis < 2 ^ 63

instance (w : Window) : DecidablePred w.Reaches := fun _ => inferInstanceAs (Decidable (_ ∧ _))

/-- The start of a window whose middle keeps clear of the middle of either half of 64 bits. -/
def Holds (w : Window) (start : ℤ) : Prop :=
  -2 ^ 63 < 2 * start + w.millis ∧ 2 * start + w.millis < 2 ^ 63

end Window

/-- **A tick within the range of windows of a length**: the volume has 64 bits, and the instants are
apart from those of another such tick, and from the window that it starts in, by what 64 bits hold. -/
structure Tick.Within (w : Window) (t : Tick) : Prop where
  start : w.Reaches t.start
  stop : w.Reaches t.stop
  volume : Signed t.volume

instance (w : Window) : DecidablePred (Tick.Within w) := fun t =>
  decidable_of_iff (w.Reaches t.start ∧ w.Reaches t.stop ∧ Signed t.volume)
    ⟨fun h => ⟨h.1, h.2.1, h.2.2⟩, fun h => ⟨h.start, h.stop, h.volume⟩⟩

namespace Window

/-- The start of the window that an instant falls in, before the epoch too. -/
def align (w : Window) (instant : ℤ) : ℤ := instant - instant % w.millis

/-- The start of the window that a tick starts in. -/
def of (w : Window) (t : Tick) : ℤ := w.align t.start

/-- The upper edge of the window that starts at an instant. -/
def edge (w : Window) (start : ℤ) : ℤ := start + w.millis

/-- The ticks among `ticks` of the window that starts at an instant. -/
def ticksIn (w : Window) (ticks : List Tick) (start : ℤ) : List Tick :=
  ticks.filter (w.of · = start)

/-- The windows of some ticks, each once, the one of the latest tick first. -/
def starts (w : Window) (ticks : List Tick) : List ℤ := (ticks.map w.of).reverse.dedup

/-- Some tick of a window has reached its edge. -/
def Reached (w : Window) (ticks : List Tick) (start : ℤ) : Prop :=
  ∃ a ∈ ticks, w.of a = start ∧ a.stop = w.edge start

/-- The ticks came in order of their windows. -/
def InOrder (w : Window) (ticks : List Tick) : Prop := (ticks.map w.of).Pairwise (· ≤ ·)

variable {w : Window} {ticks : List Tick} {t : Tick} {start instant : ℤ}

/-! ## What 64 bits hold -/

theorem InRange.millis_eq (hw : w.InRange) : w.millis = w.secs * 1000 := by
  obtain ⟨hpos, hfits⟩ := hw
  exact wrap_of_signed ⟨by omega, hfits⟩

theorem InRange.millis_pos (hw : w.InRange) : 0 < w.millis := by
  have := hw.pos
  rw [hw.millis_eq]; omega

/-- A length comes out as zero for the multiples of `2 ^ 61` seconds. -/
theorem millis_eq_zero_iff : w.millis = 0 ↔ 2 ^ 61 ∣ w.secs := by
  unfold millis
  rw [wrap_eq_zero_iff]
  omega

/-- Shorter windows reach as far. -/
theorem Reaches.of_le {w' : Window} (hle : w'.millis ≤ w.millis) (h : w.Reaches instant) :
    w'.Reaches instant := by
  unfold Reaches at h ⊢
  omega

/-- The window of an instant in reach starts where it should. -/
theorem Reaches.floor_eq (hw : 0 < w.millis) (h : w.Reaches instant) :
    w.floor instant = w.align instant := by
  have hmod := Int.emod_nonneg instant hw.ne'
  have hlt := Int.emod_lt_of_pos instant hw
  unfold Reaches at h
  exact wrap_of_signed ⟨by omega, by omega⟩

theorem Reaches.holds (hw : 0 < w.millis) (h : w.Reaches instant) : w.Holds (w.align instant) := by
  have hmod := Int.emod_nonneg instant hw.ne'
  have hlt := Int.emod_lt_of_pos instant hw
  unfold Reaches at h
  unfold Holds align
  omega

/-- **How far an instant is from the start of a window**, when 64 bits hold it. -/
theorem Reaches.wrap_sub (hw : 0 < w.millis) (h : w.Reaches instant) (hstart : w.Holds start) :
    wrap (instant - start) = instant - start := by
  unfold Reaches at h
  unfold Holds at hstart
  exact wrap_of_signed ⟨by omega, by omega⟩

/-- The edge of a window, when 64 bits hold it. -/
theorem Holds.wrap_edge (hw : 0 < w.millis) (h : w.Holds start) :
    wrap (start + w.millis) = w.edge start := by
  have hfits : w.millis < 2 ^ 63 := (signed_wrap _).2
  unfold Holds at h
  exact wrap_of_signed ⟨by omega, by omega⟩

/-- **A window within range starts where it should**, wherever in 64 bits the instant lies that it is
worked out from. -/
theorem Holds.dvd_floor (hw : 0 < w.millis) (hinstant : Signed instant)
    (h : w.Holds (w.floor instant)) : w.millis ∣ w.floor instant := by
  have hmod := Int.emod_nonneg instant hw.ne'
  have hlt := Int.emod_lt_of_pos instant hw
  have hfits : w.millis < 2 ^ 63 := (signed_wrap _).2
  obtain ⟨hlow, hhigh⟩ := hinstant
  have hfloor : w.floor instant = instant - instant % w.millis := by
    -- a start that ran over would have come out near the other end
    unfold Holds floor at h
    unfold floor
    rw [wrap_eq] at h ⊢
    omega
  rw [hfloor]
  exact Int.dvd_self_sub_emod

/-! ## Instants and their windows -/

theorem align_le (hw : 0 < w.millis) (instant : ℤ) : w.align instant ≤ instant := by
  have := Int.emod_nonneg instant hw.ne'
  unfold align; omega

theorem lt_align_add (hw : 0 < w.millis) (instant : ℤ) : instant < w.align instant + w.millis := by
  have := Int.emod_lt_of_pos instant hw
  unfold align; omega

theorem dvd_align (w : Window) (instant : ℤ) : w.millis ∣ w.align instant :=
  Int.dvd_self_sub_emod

/-- **A window is known by any instant in it.** -/
theorem align_eq (hstart : w.millis ∣ start) (hle : start ≤ instant)
    (hlt : instant < start + w.millis) : w.align instant = start := by
  obtain ⟨n, rfl⟩ := hstart
  have hmod : (instant - w.millis * n) % w.millis = instant % w.millis :=
    Int.sub_mul_emod_self_left ..
  rw [Int.emod_eq_of_lt (by omega) (by omega)] at hmod
  unfold align; omega

/-- No window that has begun by an instant is later than the one the instant falls in. -/
theorem le_align (hw : 0 < w.millis) (hstart : w.millis ∣ start) (hle : start ≤ instant) :
    start ≤ w.align instant := by
  obtain ⟨n, rfl⟩ := hstart
  -- both starts are multiples of the length, and less than a length apart
  obtain ⟨m, hm⟩ := dvd_align w instant
  have hlt := lt_align_add hw instant
  rw [hm] at hlt ⊢
  have hnm : w.millis * n < w.millis * (m + 1) := by rw [mul_add]; omega
  have := lt_of_mul_lt_mul_left hnm hw.le
  exact mul_le_mul_of_nonneg_left (by omega) hw.le

theorem dvd_edge (hstart : w.millis ∣ start) : w.millis ∣ w.edge start :=
  dvd_add hstart dvd_rfl

theorem mem_starts : start ∈ w.starts ticks ↔ ∃ a ∈ ticks, w.of a = start := by
  simp [starts]

theorem starts_nil : w.starts [] = [] := rfl

/-- A tick of a known window adds none. -/
theorem starts_concat_of_mem (h : w.of t ∈ w.starts ticks) :
    w.starts (ticks ++ [t]) = w.starts ticks := by
  unfold starts at h ⊢
  rw [List.map_append, List.reverse_append]
  exact List.dedup_cons_of_mem (List.mem_dedup.1 h)

/-- A tick of a new window puts it in front. -/
theorem starts_concat_of_notMem (h : w.of t ∉ w.starts ticks) :
    w.starts (ticks ++ [t]) = w.of t :: w.starts ticks := by
  unfold starts at h ⊢
  rw [List.map_append, List.reverse_append]
  exact List.dedup_cons_of_notMem (mt List.mem_dedup.2 h)

theorem starts_sorted (h : w.InOrder ticks) : (w.starts ticks).Pairwise (· > ·) := by
  have hge : (w.starts ticks).Pairwise (· ≥ ·) :=
    (List.pairwise_reverse.2 h).sublist (List.dedup_sublist _)
  have hne : (w.starts ticks).Pairwise (· ≠ ·) := List.nodup_dedup _
  exact hge.imp₂ (fun _ _ hle hne => lt_of_le_of_ne hle hne.symm) hne

theorem inOrder_concat :
    w.InOrder (ticks ++ [t]) ↔ w.InOrder ticks ∧ ∀ a ∈ ticks, w.of a ≤ w.of t := by
  unfold InOrder
  rw [List.map_append, List.pairwise_append]
  simp

theorem mem_ticksIn {a : Tick} : a ∈ w.ticksIn ticks start ↔ a ∈ ticks ∧ w.of a = start := by
  simp [ticksIn]

theorem ticksIn_sublist (w : Window) (ticks : List Tick) (start : ℤ) :
    (w.ticksIn ticks start).Sublist ticks := List.filter_sublist

theorem ticksIn_concat_self (w : Window) (ticks : List Tick) (t : Tick) :
    w.ticksIn (ticks ++ [t]) (w.of t) = w.ticksIn ticks (w.of t) ++ [t] := by
  simp [ticksIn]

theorem ticksIn_concat_of_ne (h : w.of t ≠ start) :
    w.ticksIn (ticks ++ [t]) start = w.ticksIn ticks start := by
  simp [ticksIn, h]

theorem ticksIn_eq_nil (h : start ∉ w.starts ticks) : w.ticksIn ticks start = [] := by
  rw [mem_starts] at h
  push Not at h
  simpa [ticksIn] using h

theorem reached_concat : w.Reached (ticks ++ [t]) start ↔
    w.Reached ticks start ∨ w.of t = start ∧ t.stop = w.edge start := by
  simp [Reached, or_and_right, exists_or]

/-- The window of the latest tick is the first one. -/
theorem starts_eq_cons (h : w.InOrder ticks) (hmem : start ∈ w.starts ticks)
    (hmax : ∀ a ∈ ticks, w.of a ≤ start) : ∃ older, w.starts ticks = start :: older := by
  cases hs : w.starts ticks with
  | nil => rw [hs] at hmem; simp at hmem
  | cons first older =>
    have hsorted := starts_sorted h
    rw [hs] at hmem hsorted
    obtain ⟨a, ha, rfl⟩ := mem_starts.1 (hs ▸ List.mem_cons_self : first ∈ w.starts ticks)
    rcases List.mem_cons.1 hmem with rfl | hold
    · exact ⟨older, rfl⟩
    · have := (List.pairwise_cons.1 hsorted).1 _ hold
      have := hmax a ha
      omega

/-- **Window by window, earliest first, every tick is there once and in order.** -/
theorem flatMap_ticksIn (h : w.InOrder ticks) :
    (w.starts ticks).reverse.flatMap (w.ticksIn ticks) = ticks := by
  induction ticks using List.reverseRecOn with
  | nil => rfl
  | append_singleton ticks t ih =>
    obtain ⟨hold, hlast⟩ := inOrder_concat.1 h
    -- windows other than the tick's own keep their ticks
    have hsame : ∀ l : List ℤ, w.of t ∉ l →
        l.flatMap (w.ticksIn (ticks ++ [t])) = l.flatMap (w.ticksIn ticks) := by
      intro l hl
      refine List.flatMap_congr fun start hs => ticksIn_concat_of_ne ?_
      rintro rfl; exact hl hs
    by_cases hmem : w.of t ∈ w.starts ticks
    · -- the tick is of the latest window, which comes last
      obtain ⟨older, hs⟩ := starts_eq_cons hold hmem hlast
      have hnodup : (w.starts ticks).Nodup := List.nodup_dedup _
      rw [hs, List.nodup_cons] at hnodup
      have ih := ih hold
      rw [hs] at ih
      rw [starts_concat_of_mem hmem, hs]
      simp only [List.reverse_cons, List.flatMap_append, List.flatMap_singleton] at ih ⊢
      rw [hsame _ (by simpa using hnodup.1), ticksIn_concat_self, ← List.append_assoc, ih]
    · rw [starts_concat_of_notMem hmem]
      simp only [List.reverse_cons, List.flatMap_append, List.flatMap_singleton]
      rw [hsame _ (by simpa using hmem), ih hold, ticksIn_concat_self, ticksIn_eq_nil hmem,
        List.nil_append]

end Window

/-- A tick within the range of some windows is within that of shorter ones. -/
theorem Tick.Within.of_le {w w' : Window} {t : Tick} (hle : w'.millis ≤ w.millis) (h : t.Within w) :
    t.Within w' :=
  ⟨h.start.of_le hle, h.stop.of_le hle, h.volume⟩

end TapeReader
