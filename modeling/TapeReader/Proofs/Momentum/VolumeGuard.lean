import TapeReader.Clock.Table
import TapeReader.Proofs.Board.Arrivals
import TapeReader.Proofs.Market.Nested
import TapeReader.Proofs.Momentum.Histories

/-!
# The guard on volume

The rule lets no entry through when the newest ten seconds have a multiple of the volume of the last
minutes, or more. The ten seconds are part of the newest minute, and so they never have.

* `Regular`: ticks inside one window of ten seconds that take no volume away.
* `isJump`: the rule without the guard; `isEntryPoint_eq_isJump`: the two agree where the guard lets
  all through.
* `exists_lt_ceiling`: **a volume that the last minutes have is below one and a half times theirs.**
* `PartOf`: volumes as regular ticks leave them; `partOf_of_comes`: a board has no others, when what has
  come since the last minutes began has room in 64 bits.
* `volume_guard_idle`: **on a board with the usual windows the guard decides nothing.**
-/

namespace TapeReader.Momentum

open Board Decimal

/-- A tick inside one window of ten seconds that takes no volume away. -/
structure Regular (t : Tick) : Prop where
  inside : t.stop ≤ tenSeconds.edge (tenSeconds.of t)
  volume : 0 ≤ t.volume

instance (t : Tick) : Decidable (Regular t) :=
  decidable_of_iff (t.stop ≤ tenSeconds.edge (tenSeconds.of t) ∧ 0 ≤ t.volume)
    ⟨fun h => ⟨h.1, h.2⟩, fun h => ⟨h.inside, h.volume⟩⟩

variable {ratio ceiling : Decimal} {tens minutes : History}
  {bar minute : Bar} {volume recent : ℤ}

/-! ## Volumes and their multiples -/

/-- The last minutes have the volume of the newest one, and more perhaps. -/
theorem le_recentVolume (hminute : minute ∈ minutes.head?) (hstart : oneMinute.Holds minute.start)
    (hrecent : ∀ recent : List Bar, recent.Sublist minutes →
      (∀ b ∈ recent, minute.start - lookbackMillis ≤ b.start) →
        (∀ b ∈ recent, 0 ≤ b.volume) ∧ (recent.map Bar.volume).sum < 2 ^ 63) :
    minute.volume ≤ recentVolume minute minutes := by
  obtain ⟨older, rfl⟩ := List.head?_eq_some_iff.1 hminute
  unfold recentVolume
  dsimp only
  rw [wrap_lookback hstart, List.takeWhile_cons_of_pos (by simp [lookbackMillis])]
  set earlier := older.takeWhile (minute.start - lookbackMillis ≤ ·.start)
  obtain ⟨hvolumes, htotal⟩ := hrecent (minute :: earlier)
    ((List.takeWhile_sublist _).cons_cons minute)
    (List.forall_mem_cons.2 ⟨by simp [lookbackMillis], fun b hb => by
      simpa using List.mem_takeWhile_imp hb⟩)
  have hnonneg : ∀ v ∈ (minute :: earlier).map Bar.volume, 0 ≤ v := List.forall_mem_map.2 hvolumes
  have hfirst : minute.volume ≤ ((minute :: earlier).map Bar.volume).sum :=
    List.single_le_sum hnonneg _ (by simp)
  have hpos := hvolumes minute List.mem_cons_self
  change minute.volume ≤ wrap ((minute :: earlier).map Bar.volume).sum
  rwa [wrap_of_signed ⟨by omega, htotal⟩]

/-- **What the last minutes have is below the ceiling**, and all that is less. -/
theorem exists_lt_ceiling (hratio : 3 / 2 ≤ ratio.value) (hrecent : 1 ≤ recent) (hvolume : 0 ≤ volume)
    (hle : volume ≤ recent) (hceiling : multiple ratio recent = .ok ceiling) :
    ∃ v, ofInt? volume = some v ∧ v < ceiling := by
  rw [multiple_eq] at hceiling
  cases hd : ofInt? recent with
  | none => simp [hd] at hceiling
  | some d =>
    have hproduct : ratio.mul? d = some ceiling := by
      cases hm : ratio.mul? d with
      | none => simp [hd, hm] at hceiling
      | some c => simpa [hd, hm] using hceiling
    have hroom : ¬ 2 ^ 96 ≤ |recent| := fun hover => by
      simp [ofInt?_eq_none_iff.2 hover] at hd
    cases hv : ofInt? volume with
    | none =>
      rw [abs_of_nonneg (by omega)] at hroom
      have := ofInt?_eq_none_iff.1 hv
      rw [abs_of_nonneg hvolume] at this
      omega
    | some v =>
      refine ⟨v, rfl, lt_iff.2 ?_⟩
      calc v.value = (volume : ℚ) := ofInt?_value hv
        _ ≤ recent := by exact_mod_cast hle
        _ < ceiling.value := lt_value_of_mul? hratio hrecent hd hproduct

/-- A ceiling that has room. -/
theorem multiple_ok_of_lt (hratio : 3 / 2 ≤ ratio.value) (hrecent : 0 ≤ recent)
    (hroom : ratio.value * recent < overflow) : ∃ ceiling, multiple ratio recent = .ok ceiling := by
  have hpos : (0 : ℚ) ≤ recent := by exact_mod_cast hrecent
  unfold multiple
  cases hd : ofInt? recent with
  | some d =>
    refine product_ok ?_
    rw [ofInt?_value hd, abs_of_nonneg (mul_nonneg (by linarith) hpos)]
    exact hroom
  | none =>
    -- an integer without room has no multiple with room either
    have hover := ofInt?_eq_none_iff.1 hd
    rw [abs_of_nonneg hrecent] at hover
    have hover : (2 ^ 96 : ℚ) ≤ recent := by exact_mod_cast hover
    have hless : 3 / 2 * (recent : ℚ) ≤ ratio.value * recent :=
      mul_le_mul_of_nonneg_right hratio hpos
    unfold overflow at hroom
    linarith

/-! ## The rule with the guard and without -/

section

variable [TimeZones] {rule : Config.Momentum}

/-- **The rule without the guard**: it looks at the price, and at the volume of the newest minute. -/
def isJump (rule : Config.Momentum) (tens minutes : History) : Except Abort Bool :=
  match tens, minutes with
  | bar :: _, minute :: _ =>
    if inSession rule bar then do
      let threshold ← product rule.gainRatio (referenceOpen tens)
      .ok (decide (threshold < bar.closePrice ∧ rule.minPrice < bar.closePrice ∧
        bar.closePrice < rule.maxPrice ∧ rule.minMinuteVolume < minute.volume))
    else .ok false
  | _, _ => .ok false

/-- **The rule is the rule without the guard** where the guard lets through all that come to it. -/
theorem isEntryPoint_eq_isJump (h : ∀ bar ∈ tens.head?, ∀ minute ∈ minutes.head?,
      rule.minMinuteVolume < minute.volume → ∃ ceiling v,
        multiple rule.volumeRatio (recentVolume minute minutes) = .ok ceiling ∧
          ofInt? bar.volume = some v ∧ v < ceiling) :
    isEntryPoint rule tens minutes = isJump rule tens minutes := by
  cases tens with
  | nil => rfl
  | cons bar older =>
    cases minutes with
    | nil => rfl
    | cons minute earlier =>
      have h := h bar rfl minute rfl
      unfold isEntryPoint isJump
      dsimp only
      by_cases hsession : inSession rule bar = true
      · rw [if_pos hsession, if_pos hsession]
        -- the first product is formed by both, and without it there is no answer from either
        cases product rule.gainRatio (referenceOpen (bar :: older)) with
        | error a => rfl
        | ok threshold =>
          dsimp only [bind, Except.bind]
          split
          · rename_i hbounds
            obtain ⟨ceiling, v, hceiling, hv, hlt⟩ := h hbounds.2.2.2
            rw [hceiling, hv]
            simp [hlt, hbounds]
          · rename_i hbounds
            simp [hbounds]
      · rw [if_neg hsession, if_neg hsession]

/-- **Volumes as regular ticks leave them**: what the newest ten seconds have is part of what the newest
minute has, and that is part of what the last minutes have. -/
structure PartOf (tens minutes : History) : Prop where
  nonneg : ∀ bar ∈ tens.head?, ∀ minute ∈ minutes.head?, 0 ≤ bar.volume
  newest : ∀ bar ∈ tens.head?, ∀ minute ∈ minutes.head?, bar.volume ≤ minute.volume
  recent : ∀ minute ∈ minutes.head?, minute.volume ≤ recentVolume minute minutes

/-- The guard lets the newest ten seconds through, in a minute of enough volume. -/
theorem PartOf.exists_lt_ceiling (h : PartOf tens minutes) (hratio : 3 / 2 ≤ rule.volumeRatio.value)
    (hbusy : 0 ≤ rule.minMinuteVolume) (hbar : bar ∈ tens.head?) (hminute : minute ∈ minutes.head?)
    (henough : rule.minMinuteVolume < minute.volume)
    (hceiling : multiple rule.volumeRatio (recentVolume minute minutes) = .ok ceiling) :
    ∃ v, ofInt? bar.volume = some v ∧ v < ceiling := by
  have hrecent := h.recent minute hminute
  exact Momentum.exists_lt_ceiling hratio (by omega) (h.nonneg bar hbar minute hminute)
    ((h.newest bar hbar minute hminute).trans hrecent) hceiling

/-- So the rule is the rule without the guard, when the ceiling has room. -/
theorem PartOf.isEntryPoint_eq (h : PartOf tens minutes) (hratio : 3 / 2 ≤ rule.volumeRatio.value)
    (hbusy : 0 ≤ rule.minMinuteVolume)
    (hfits : ∀ minute ∈ minutes.head?,
      rule.volumeRatio.value * recentVolume minute minutes < overflow) :
    isEntryPoint rule tens minutes = isJump rule tens minutes := by
  refine isEntryPoint_eq_isJump fun bar hbar minute hminute henough => ?_
  have hrecent := h.recent minute hminute
  obtain ⟨ceiling, hceiling⟩ := multiple_ok_of_lt hratio (by omega) (hfits minute hminute)
  obtain ⟨v, hv, hlt⟩ := h.exists_lt_ceiling hratio hbusy hbar hminute henough hceiling
  exact ⟨ceiling, v, hceiling, hv, hlt⟩

/-! ## Boards -/

variable {σ κ ν : Type} {react : Reaction κ σ ν} {c : Config.Aggregation} {w : World κ σ}
  {ticks : List Tick}

omit [TimeZones] in
/-- **The volumes on a board** that is offered regular ticks only. -/
theorem partOf_of_comes (hsecs : c.resolutionsSecs = ⟨1, 10, 60, 300⟩) (hroom : 1 ≤ c.historyLen)
    (hw : Comes react c ticks w) (hregular : ∀ t ∈ ticks, Regular t)
    (hticks : ∀ t ∈ ticks, t.Within oneMinute) (ticker : String)
    (htotal : ∀ minute ∈ (w.board.history .oneMinute ticker).head?,
      ((ticksSince ticker (minute.start - lookbackMillis) ticks).map Tick.volume).sum < 2 ^ 63) :
    PartOf (w.board.history .tenSeconds ticker) (w.board.history .oneMinute ticker) := by
  obtain ⟨calls, rfl, hhistory⟩ := hw.history_eq (proper_usual hsecs)
  have hinside : ∀ t, Call.add t ∈ calls → t.stop ≤ tenSeconds.edge (tenSeconds.of t) := fun t ht =>
    (hregular t (Call.mem_ticks_iff.2 ht)).inside
  have hvolume : ∀ t ∈ calls.filterMap Call.tick?, 0 ≤ t.volume := fun t ht => (hregular t ht).volume
  have hminutes : ∀ c ∈ calls, c.Within oneMinute := Call.within_of_ticks hticks
  rw [hhistory, hsecs] at htotal
  rw [hhistory, hhistory, hsecs]
  have hpart : ∀ minute ∈ ((calls.foldl Store.after (.fresh oneMinute c.historyLen)).history ticker).head?,
      ∀ bar ∈ ((calls.foldl Store.after (.fresh tenSeconds c.historyLen)).history ticker).head?,
        0 ≤ bar.volume ∧ bar.volume ≤ minute.volume := fun minute hminute bar hbar =>
    Store.newest_volume_le (by decide) oneMinute_inRange (by decide) hroom hroom hminutes hinside hvolume
      (htotal minute hminute) hbar hminute (by simp [lookbackMillis])
  refine ⟨fun bar hbar minute hminute => (hpart minute hminute bar hbar).1,
    fun bar hbar minute hminute => (hpart minute hminute bar hbar).2, fun minute hminute => ?_⟩
  -- the minutes that the rule sums up are of ticks that have come since
  refine le_recentVolume hminute (Store.holds_of_mem oneMinute_inRange c.historyLen hminutes ticker minute
    (List.mem_of_mem_head? hminute)) fun recent hrecent hsince => ⟨fun b hb => ?_, ?_⟩
  · exact Store.volume_nonneg oneMinute_inRange hroom hminutes hvolume (htotal minute hminute)
      (hrecent.subset hb) (hsince b hb)
  · exact Store.sum_volume_lt oneMinute_inRange hroom hminutes hvolume (htotal minute hminute) hrecent
      hsince

/-- **The guard on volume decides nothing.** A board has windows of the usual lengths and keeps a bar
of each ticker at least. Only ticks come to it that lie inside one window of ten seconds and take no volume
away, in any order; they are within range, and what has come of a ticker since the last minutes began has
room in 64 bits. The ratio is one and a half or more, and the bound on the volume of the newest minute is
not negative. At every moment, in the middle of a message too, the newest ten seconds of the ticker have no
more volume than its newest minute. So where the minute has the volume that the rule asks for, the ten
seconds are below the multiple of the last minutes, if that has room in a decimal; and the rule answers, or
gives up, as it does without the guard. Messages lead from such a moment to another, with more of their
ticks, when the watchers bring none. -/
theorem volume_guard_idle (hsecs : c.resolutionsSecs = ⟨1, 10, 60, 300⟩) (hroom : 1 ≤ c.historyLen)
    (hw : Comes react c ticks w) (hregular : ∀ t ∈ ticks, Regular t)
    (hticks : ∀ t ∈ ticks, t.Within oneMinute) (hratio : 3 / 2 ≤ rule.volumeRatio.value)
    (hbusy : 0 ≤ rule.minMinuteVolume) (ticker : String)
    (htotal : ∀ minute ∈ (w.board.history .oneMinute ticker).head?,
      ((ticksSince ticker (minute.start - lookbackMillis) ticks).map Tick.volume).sum < 2 ^ 63) :
    let tens := w.board.history .tenSeconds ticker
    let minutes := w.board.history .oneMinute ticker
    (BringsNone react → ∀ raws : List String, ∃ fed, fed.Sublist (raws.flatMap ticksOf) ∧
      Comes react c (ticks ++ fed) (receives react raws w).1) ∧
    (∀ bar ∈ tens.head?, ∀ minute ∈ minutes.head?, bar.volume ≤ minute.volume ∧
      (rule.minMinuteVolume < minute.volume → ∀ ceiling,
        multiple rule.volumeRatio (recentVolume minute minutes) = .ok ceiling →
          ∃ v, ofInt? bar.volume = some v ∧ v < ceiling)) ∧
    ((∀ minute ∈ minutes.head?,
        rule.volumeRatio.value * recentVolume minute minutes < overflow) →
      isEntryPoint rule tens minutes = isJump rule tens minutes) := by
  intro tens minutes
  have hpart : PartOf tens minutes :=
    partOf_of_comes hsecs hroom hw hregular hticks ticker htotal
  refine ⟨fun hnone => hw.receives hnone, fun bar hbar minute hminute => ⟨?_, ?_⟩, hpart.isEntryPoint_eq hratio hbusy⟩
  · exact hpart.newest bar hbar minute hminute
  · exact fun henough _ hceiling =>
      hpart.exists_lt_ceiling hratio hbusy hbar hminute henough hceiling

/-- The desk only looks at the board. -/
theorem bringsNone_react : BringsNone Momentum.react := fun _ _ _ => .refl _

end

attribute [local instance] TimeZones.table

/-- The second tick comes late for the ten seconds, and not for the minute. The third is an entry. -/
def lateRecords : List String :=
  [Session.recordOver "10" "11" "20000" "30000", Session.recordOver "10" "11" "05000" "06000",
    Session.recordOver "13" "13" "30000" "31000"]

/-- A board that a desk with the default rule watches. -/
def watched : World DeskWatcher Desk :=
  ⟨(ofConfig {}).act (.register Desk.watcherName .desk), { rule := default }⟩

theorem comes_watched : Comes Momentum.react {} [] watched := .act (.fresh _) _

/-- The ticks of these records are regular, within range, and of little volume. -/
theorem regular_lateRecords : (∀ t ∈ lateRecords.flatMap ticksOf, Regular t ∧ t.Within oneMinute) ∧
    ((lateRecords.flatMap ticksOf).map Tick.volume).sum = 12000 := by
  decide +kernel

/-- The ten seconds have one tick less than the minute, and the guard lets the entry through. -/
theorem volume_guard_idle_late :
    let rule : Config.Momentum := {}
    let w := (receives Momentum.react lateRecords watched).1
    let tens := w.board.history .tenSeconds "SPCE"
    let minutes := w.board.history .oneMinute "SPCE"
    (∃ ticks, Comes Momentum.react {} ticks w ∧ (∀ t ∈ ticks, Regular t ∧ t.Within oneMinute) ∧
      ∀ minute ∈ minutes.head?,
        ((ticksSince "SPCE" (minute.start - lookbackMillis) ticks).map Tick.volume).sum < 2 ^ 63) ∧
      tens.map Bar.volume = [4000, 4000] ∧ minutes.map Bar.volume = [12000] ∧
      isEntryPoint rule tens minutes = .ok true ∧
      isEntryPoint rule tens minutes = isJump rule tens minutes := by
  intro rule w tens minutes
  have hratio : 3 / 2 ≤ rule.volumeRatio.value := by norm_num [rule, value]
  obtain ⟨hregular, hsum⟩ := regular_lateRecords
  obtain ⟨fed, hfed, hw⟩ := comes_watched.receives bringsNone_react lateRecords
  rw [List.nil_append] at hw
  have hkind : ∀ t ∈ fed, Regular t ∧ t.Within oneMinute := fun t ht => hregular t (hfed.subset ht)
  have htotal : ∀ minute ∈ minutes.head?,
      ((ticksSince "SPCE" (minute.start - lookbackMillis) fed).map Tick.volume).sum < 2 ^ 63 := by
    intro minute _
    have hpart : (ticksSince "SPCE" (minute.start - lookbackMillis) fed).Sublist _ :=
      List.filter_sublist.trans hfed
    have hle := (hpart.map Tick.volume).sum_le_sum
      (List.forall_mem_map.2 fun t ht => (hregular t ht).1.volume)
    rw [hsum] at hle
    omega
  obtain ⟨htens, hminutes, hyes, hrecent⟩ : tens.map Bar.volume = [4000, 4000] ∧
      minutes.map Bar.volume = [12000] ∧ isEntryPoint rule tens minutes = .ok true ∧
      ∀ minute ∈ minutes.head?, recentVolume minute minutes = 12000 := by decide +kernel
  refine ⟨⟨fed, hw, hkind, htotal⟩, htens, hminutes, hyes, ?_⟩
  refine (volume_guard_idle rfl (by decide) hw (fun t ht => (hkind t ht).1)
    (fun t ht => (hkind t ht).2) hratio (by decide) "SPCE" htotal).2.2 fun minute hm => ?_
  rw [hrecent minute hm]
  norm_num [rule, value, overflow]

end TapeReader.Momentum
