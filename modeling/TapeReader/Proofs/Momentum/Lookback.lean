import TapeReader.Momentum.Rule
import TapeReader.Proofs.Market.Span

/-!
# What the entry rule reads

The rule looks at the bar behind the newest one, and walks minute bars back while they are recent.
Where bars are laid out on windows, this comes to bars of certain windows, wherever they stand.

* `filledBefore?`: the bar of the window right before that of a bar, when it reaches its edge.
* `lastMinutes`: the minute bars that begin in the five minutes up to a bar's start.
* `Entry`, `Overflows`: the conditions of an entry, and a product without room, in these terms.
* `referenceOpen_take`, `recentVolume_take`: the rule finds the open and the volume among the newest few.
* `isEntryPoint_take`: **the newest six bars tell the rule what a whole history would**, when the volume of
  the last minutes has 64 bits; `isEntryPoint_take_eq`: six or more tell it the same in any case.
-/

namespace TapeReader

namespace History

variable {w : Window} {h : History}

/-- Bars go down. -/
theorem Laid.sorted (hl : Laid w h) (hw : 0 < w.millis) :
    h.Pairwise fun newer older => older.start < newer.start :=
  hl.spaced.imp fun {newer older} hedge => by
    unfold Window.edge at hedge
    omega

/-- **There is room for so many bars only.** -/
theorem Laid.length_le (hl : Laid w h) (low high : ℤ) (hle : low ≤ high + w.millis)
    (hin : ∀ b ∈ h, low ≤ b.start ∧ b.start ≤ high) :
    h.length * w.millis ≤ high - low + w.millis := by
  induction h generalizing high with
  | nil =>
    rw [List.length_nil, Nat.cast_zero, zero_mul]
    omega
  | cons bar older ih =>
    obtain ⟨hlow, hhigh⟩ := hin bar (by simp)
    obtain ⟨hbefore, hspaced⟩ := List.pairwise_cons.1 hl.spaced
    have hrest : Laid w older := ⟨fun b hb => hl.aligned b (by simp [hb]),
      fun b hb => hl.span b (by simp [hb]), hspaced⟩
    -- the others are a window below the first one
    have := ih hrest (bar.start - w.millis) (by omega) fun b hb => ?_
    · rw [List.length_cons]
      push_cast
      linarith
    · have hedge := hbefore b hb
      have := (hin b (by simp [hb])).1
      unfold Window.edge at hedge
      omega

/-- Bars from some instant on are the newest ones. -/
theorem takeWhile_eq_filter (hs : h.Pairwise fun newer older => older.start < newer.start)
    (low : ℤ) : h.takeWhile (low ≤ ·.start) = h.filter (low ≤ ·.start) := by
  induction h with
  | nil => rfl
  | cons bar older ih =>
    obtain ⟨hbelow, hrest⟩ := List.pairwise_cons.1 hs
    by_cases hbar : low ≤ bar.start
    · rw [List.takeWhile_cons_of_pos (by simpa using hbar),
        List.filter_cons_of_pos (by simpa using hbar), ih hrest]
    · rw [List.takeWhile_cons_of_neg (by simpa using hbar),
        List.filter_cons_of_neg (by simpa using hbar), eq_comm, List.filter_eq_nil_iff]
      intro b hb
      have := hbelow b hb
      simp only [decide_eq_true_eq]
      omega

end History

namespace Momentum

open History

/-! ## The bars that count -/

/-- The bar of the window right before that of a bar, when it reaches the upper edge of its window. -/
def filledBefore? (w : Window) (bars : History) (bar : Bar) : Option Bar :=
  bars.find? fun previous =>
    w.edge previous.start = bar.start ∧ previous.stop = w.edge previous.start

/-- The open that the close of a bar is compared with: that of the bar right before it, or its own. -/
def jumpOpen (w : Window) (bars : History) (bar : Bar) : Decimal :=
  ((filledBefore? w bars bar).getD bar).openPrice

/-- The minute bars that begin in the five minutes up to the start of a bar. -/
def lastMinutes (minutes : History) (newest : Bar) : List Bar :=
  minutes.filter fun b => newest.start - lookbackMillis ≤ b.start ∧ b.start ≤ newest.start

/-- The volume of these. -/
def lastVolume (minutes : History) (newest : Bar) : ℤ :=
  ((lastMinutes minutes newest).map (·.volume)).sum

/-- The windows of ten seconds. -/
def tenSeconds : Window := ⟨10⟩

/-- The windows of a minute. -/
def oneMinute : Window := ⟨60⟩

theorem tenSeconds_inRange : tenSeconds.InRange := by decide

theorem oneMinute_inRange : oneMinute.InRange := by decide

theorem oneMinute_millis : oneMinute.millis = 60000 := oneMinute_inRange.millis_eq

variable {w : Window} {tens minutes older : History} {bar minute : Bar} {n : ℕ}

/-- No window comes right before itself. -/
theorem filledBefore?_cons (hw : 0 < w.millis) (bar : Bar) (older : History) :
    filledBefore? w (bar :: older) bar = filledBefore? w older bar := by
  unfold filledBefore? Window.edge
  rw [List.find?_cons_of_neg]
  simp only [decide_eq_true_eq]
  omega

/-- **The bar behind the newest one runs into it** just when it fills the window right before. -/
theorem filledBefore?_eq (hl : Laid w (bar :: older)) :
    filledBefore? w older bar = older.head?.filter (·.stop = bar.start) := by
  cases older with
  | nil => rfl
  | cons previous rest =>
    have hspaced := List.pairwise_cons.1 hl.spaced
    have hedge : w.edge previous.start ≤ bar.start := hspaced.1 previous (by simp)
    have hstop : previous.stop ≤ w.edge previous.start := (hl.span previous (by simp)).2
    unfold filledBefore?
    by_cases hruns : previous.stop = bar.start
    · rw [List.find?_cons_of_pos (by simp only [decide_eq_true_eq]; omega)]
      simp [Option.filter, hruns]
    · -- the bars further back end before this one starts
      have hnone : ∀ b ∈ previous :: rest,
          ¬ (w.edge b.start = bar.start ∧ b.stop = w.edge b.start) := by
        intro b hb hfills
        rcases List.mem_cons.1 hb with rfl | hb
        · omega
        · have hbelow := (List.pairwise_cons.1 hspaced.2).1 b hb
          have := (hl.span previous (by simp)).1
          omega
      rw [List.find?_eq_none.2 (by simpa using hnone)]
      simp [Option.filter, hruns]

/-- The reference open is that of the bar in the window right before, if it fills it. -/
theorem referenceOpen_take (hl : Laid w tens) (hw : 0 < w.millis) (hn : 2 ≤ n)
    (hbar : bar ∈ tens.head?) : referenceOpen (tens.take n) = jumpOpen w tens bar := by
  obtain ⟨m, rfl⟩ : ∃ m, n = m + 2 := ⟨n - 2, by omega⟩
  obtain ⟨older, rfl⟩ : ∃ older, tens = bar :: older := List.head?_eq_some_iff.1 hbar
  unfold jumpOpen
  rw [filledBefore?_cons hw, filledBefore?_eq hl]
  cases older with
  | nil => rfl
  | cons previous rest =>
    rw [List.take_succ_cons, List.take_succ_cons, List.head?_cons]
    unfold referenceOpen
    by_cases hruns : previous.stop = bar.start <;> simp [Option.filter, hruns]

/-- No more than six minutes begin in five. -/
theorem length_lastMinutes_le (hl : Laid oneMinute minutes) (newest : Bar) :
    (lastMinutes minutes newest).length ≤ 6 := by
  have hlaid : Laid oneMinute (lastMinutes minutes newest) :=
    ⟨fun b hb => hl.aligned b (List.mem_filter.1 hb).1, fun b hb => hl.span b (List.mem_filter.1 hb).1,
      hl.spaced.sublist List.filter_sublist⟩
  have hroom := hlaid.length_le (newest.start - lookbackMillis) newest.start
    (by rw [oneMinute_millis]; simp only [lookbackMillis]; omega)
    fun b hb => by simpa using (List.mem_filter.1 hb).2
  rw [oneMinute_millis] at hroom
  simp only [lookbackMillis] at hroom
  omega

/-- Five minutes before a window within range. -/
theorem wrap_lookback (hstart : oneMinute.Holds minute.start) :
    wrap (minute.start - lookbackMillis) = minute.start - lookbackMillis := by
  unfold Window.Holds at hstart
  rw [oneMinute_millis] at hstart
  unfold lookbackMillis
  exact wrap_of_signed ⟨by omega, by omega⟩

/-- The walk back from the newest minute sees the minutes that begin in the last five, and adds up their
volumes in 64 bits. -/
theorem recentVolume_take (hl : Laid oneMinute minutes) (hn : 6 ≤ n)
    (hminute : minute ∈ minutes.head?) (hstart : oneMinute.Holds minute.start) :
    recentVolume minute (minutes.take n) = wrap (lastVolume minutes minute) := by
  have hsorted := hl.sorted oneMinute_inRange.millis_pos
  have hlast : lastMinutes minutes minute =
      minutes.takeWhile (minute.start - lookbackMillis ≤ ·.start) := by
    rw [takeWhile_eq_filter hsorted]
    refine List.filter_congr fun b hb => ?_
    -- no bar is newer than the newest one
    obtain ⟨older, rfl⟩ : ∃ older, minutes = minute :: older := List.head?_eq_some_iff.1 hminute
    have hle : b.start ≤ minute.start := by
      rcases List.mem_cons.1 hb with rfl | hb
      · exact le_rfl
      · exact ((List.pairwise_cons.1 hsorted).1 b hb).le
    simp [hle]
  have hlength := length_lastMinutes_le hl minute
  unfold recentVolume lastVolume
  dsimp only
  rw [wrap_lookback hstart, ← List.take_takeWhile, ← hlast, List.take_of_length_le (by omega)]

/-! ## The rule -/

variable [TimeZones]

/-- The edge of a bar is in the session, in local time. -/
def InSession (rule : Config.Momentum) (bar : Bar) : Prop :=
  ∃ instant ∈ bar.endTime?, ¬ rule.timezone.localTime instant < rule.sessionStart ∧
    rule.timezone.localTime instant < rule.sessionEnd

/-- What the close has to exceed. -/
def threshold? (rule : Config.Momentum) (tens : History) (bar : Bar) : Option Decimal :=
  rule.gainRatio.mul? (jumpOpen tenSeconds tens bar)

/-- What the volume has to stay below. -/
def ceiling? (rule : Config.Momentum) (minutes : History) (minute : Bar) : Option Decimal :=
  (Decimal.ofInt? (lastVolume minutes minute)).bind rule.volumeRatio.mul?

/-- The price jumps, within the bounds on prices, in a minute of enough volume. -/
structure Jumps (rule : Config.Momentum) (tens : History) (bar minute : Bar) : Prop where
  gain : ∃ threshold ∈ threshold? rule tens bar, threshold < bar.closePrice
  above : rule.minPrice < bar.closePrice
  below : bar.closePrice < rule.maxPrice
  busy : rule.minMinuteVolume < minute.volume

/-- **An entry**, on the bars of a ticker: the price jumps in the session, and the volume stays below
a multiple of that of the last minutes. -/
def Entry (rule : Config.Momentum) (tens minutes : History) : Prop :=
  ∃ bar ∈ tens.head?, ∃ minute ∈ minutes.head?,
    InSession rule bar ∧ Jumps rule tens bar minute ∧
      ∃ ceiling ∈ ceiling? rule minutes minute, ∃ volume ∈ Decimal.ofInt? bar.volume,
        volume < ceiling

/-- The rule forms a decimal that there is no room for: a multiple of the reference open in the
session, or a multiple of volumes where the price jumps. -/
def Overflows (rule : Config.Momentum) (tens minutes : History) : Prop :=
  ∃ bar ∈ tens.head?, ∃ minute ∈ minutes.head?,
    InSession rule bar ∧ (threshold? rule tens bar = none ∨ Jumps rule tens bar minute ∧
      (ceiling? rule minutes minute = none ∨ Decimal.ofInt? bar.volume = none))

variable {rule : Config.Momentum}

theorem inSession_iff : inSession rule bar = true ↔ InSession rule bar := by
  unfold inSession InSession
  cases bar.endTime? with
  | none => simp
  | some instant => simp

omit [TimeZones] in
theorem multiple_eq (ratio : Decimal) (volume : ℤ) : multiple ratio volume =
    ((Decimal.ofInt? volume).bind ratio.mul?).elim (.error .multiplication) .ok := by
  unfold multiple product
  cases Decimal.ofInt? volume <;> rfl

theorem jumps_iff {threshold : Decimal} (minute : Bar) (h : threshold? rule tens bar = some threshold) :
    Jumps rule tens bar minute ↔ threshold < bar.closePrice ∧ rule.minPrice < bar.closePrice ∧
      bar.closePrice < rule.maxPrice ∧ rule.minMinuteVolume < minute.volume := by
  constructor
  · rintro ⟨⟨threshold', h', hgain⟩, habove, hbelow, hbusy⟩
    obtain rfl : threshold' = threshold := Option.mem_unique h' h
    exact ⟨hgain, habove, hbelow, hbusy⟩
  · rintro ⟨hgain, habove, hbelow, hbusy⟩
    exact ⟨⟨threshold, h, hgain⟩, habove, hbelow, hbusy⟩

/-- **The answer of the rule**, and the only way in which it gives none. -/
structure Answers (result : Except Abort Bool) (entry overflows : Prop) : Prop where
  yes : result = .ok true ↔ entry
  gives_up : ∀ a, result = .error a ↔ a = .multiplication ∧ overflows

variable {seenMinutes : History}

/-- The rule on bars that it has found the right open and the right volume among. -/
theorem isEntryPoint_answers_cons
    (hopen : referenceOpen (bar :: older) = jumpOpen tenSeconds tens bar)
    (hvolume : recentVolume minute (minute :: seenMinutes) = lastVolume minutes minute) :
    Answers (isEntryPoint rule (bar :: older) (minute :: seenMinutes))
      (InSession rule bar ∧ Jumps rule tens bar minute ∧
        ∃ ceiling ∈ ceiling? rule minutes minute, ∃ volume ∈ Decimal.ofInt? bar.volume,
          volume < ceiling)
      (InSession rule bar ∧ (threshold? rule tens bar = none ∨ Jumps rule tens bar minute ∧
        (ceiling? rule minutes minute = none ∨ Decimal.ofInt? bar.volume = none))) := by
  unfold isEntryPoint
  dsimp only
  rw [hopen, hvolume, multiple_eq, ← ceiling?, product, ← threshold?]
  by_cases hsession : inSession rule bar = true
  · have hin : InSession rule bar := inSession_iff.1 hsession
    rw [if_pos hsession]
    cases hthreshold : threshold? rule tens bar with
    | none =>
      have hstill : ¬ Jumps rule tens bar minute := fun h => by simpa [hthreshold] using h.gain
      constructor <;> simp [bind, Except.bind, hin, hstill, eq_comm]
    | some threshold =>
      have hjumps := jumps_iff minute hthreshold
      dsimp only [Option.elim, bind, Except.bind]
      split
      · rename_i hbounds
        have hjumps := hjumps.2 hbounds
        cases ceiling? rule minutes minute with
        | none => constructor <;> simp [hin, hjumps, eq_comm]
        | some ceiling =>
          cases Decimal.ofInt? bar.volume with
          | none => constructor <;> simp [hin, hjumps, eq_comm]
          | some volume => constructor <;> simp [hin, hjumps]
      · rename_i hbounds
        constructor <;> simp [mt hjumps.1 hbounds]
  · have hout : ¬ InSession rule bar := mt inSession_iff.2 hsession
    rw [if_neg hsession]
    constructor <;> simp [hout]

/-- **The newest six bars tell the rule what a whole history would.** The volume of the last minutes
has 64 bits. -/
theorem isEntryPoint_take (htens : Laid tenSeconds tens) (hminutes : Laid oneMinute minutes)
    (hn : 6 ≤ n) (hstart : ∀ minute ∈ minutes.head?, oneMinute.Holds minute.start)
    (hsum : ∀ minute ∈ minutes.head?, Signed (lastVolume minutes minute)) :
    Answers (isEntryPoint rule (tens.take n) (minutes.take n)) (Entry rule tens minutes)
      (Overflows rule tens minutes) := by
  obtain ⟨m, rfl⟩ : ∃ m, n = m + 1 := ⟨n - 1, by omega⟩
  cases tens with
  | nil => constructor <;> simp [isEntryPoint, Entry, Overflows]
  | cons bar older =>
    cases minutes with
    | nil => constructor <;> simp [isEntryPoint, Entry, Overflows]
    | cons minute earlier =>
      have hopen := referenceOpen_take htens tenSeconds_inRange.millis_pos (n := m + 1) (by omega) rfl
      have hvolume := recentVolume_take hminutes hn rfl (hstart minute rfl)
      rw [wrap_of_signed (hsum minute rfl)] at hvolume
      rw [List.take_succ_cons] at hopen hvolume
      rw [List.take_succ_cons, List.take_succ_cons]
      unfold Entry Overflows
      simpa only [List.head?_cons, Option.mem_some, exists_eq_left'] using
        isEntryPoint_answers_cons hopen hvolume

/-- **Six bars or more tell the rule the same.** -/
theorem isEntryPoint_take_eq (htens : Laid tenSeconds tens) (hminutes : Laid oneMinute minutes)
    (hstart : ∀ minute ∈ minutes.head?, oneMinute.Holds minute.start) {m : ℕ} (hn : 6 ≤ n)
    (hm : 6 ≤ m) : isEntryPoint rule (tens.take n) (minutes.take n) =
      isEntryPoint rule (tens.take m) (minutes.take m) := by
  obtain ⟨n', rfl⟩ : ∃ n', n = n' + 1 := ⟨n - 1, by omega⟩
  obtain ⟨m', rfl⟩ : ∃ m', m = m' + 1 := ⟨m - 1, by omega⟩
  cases tens with
  | nil => rfl
  | cons bar older =>
    cases minutes with
    | nil => rfl
    | cons minute earlier =>
      -- the rule asks for the newest bars, the reference open and the recent volume only
      have hopen := fun k (hk : 2 ≤ k) =>
        referenceOpen_take htens tenSeconds_inRange.millis_pos (n := k) hk rfl
      have hvolume := fun k (hk : 6 ≤ k) =>
        recentVolume_take hminutes (n := k) hk rfl (hstart minute rfl)
      have hopens := (hopen (n' + 1) (by omega)).trans (hopen (m' + 1) (by omega)).symm
      have hvolumes := (hvolume (n' + 1) hn).trans (hvolume (m' + 1) hm).symm
      rw [List.take_succ_cons, List.take_succ_cons] at hopens hvolumes
      unfold isEntryPoint
      simp only [List.take_succ_cons, hopens, hvolumes]

end Momentum

end TapeReader
