import TapeReader.Momentum.Desk
import TapeReader.Proofs.Decimal.Rounding

/-!
# Where the entry rule has no answer

The rule multiplies the reference open before it looks at any bound on prices, so a price without a
multiple leaves it without an answer.

* `Sight`: the bars that a desk sees of a ticker.
* `Sight.Overpriced`: the ticker is in the session, and its reference open has no multiple.
* `Sober`: rules of which nothing but this multiple can fail; the default rule is one.
* `Desk.look_error_iff`: **a desk with such a rule gives up at an overpriced sight, when it holds
  nothing, and in no other case.**
-/

namespace TapeReader.Momentum

open Decimal

variable [TimeZones]

/-- The bars that a desk sees of a ticker. -/
structure Sight where
  tens : History
  minutes : History
deriving DecidableEq, Repr

namespace Sight

/-- The newest bar is in the session, and the multiple that its close has to exceed has no room in a
decimal. -/
def Overpriced (rule : Config.Momentum) (sight : Sight) : Prop :=
  sight.minutes ≠ [] ∧ ∃ bar ∈ sight.tens.head?, inSession rule bar = true ∧
    overflow ≤ |rule.gainRatio.value * (referenceOpen sight.tens).value|

/-- The volumes are within 64 bits. -/
def Counted (sight : Sight) : Prop :=
  ∀ bar ∈ sight.tens.head?, ∀ minute ∈ sight.minutes.head?,
    |bar.volume| ≤ 2 ^ 63 ∧ |recentVolume minute sight.minutes| ≤ 2 ^ 63

end Sight

/-- The multiples of volumes that a rule forms, and the limits above its closes, have room in a
decimal. -/
structure Sober (rule : Config.Momentum) : Prop where
  volumes : |rule.volumeRatio.value| * 2 ^ 63 < overflow
  prices : rule.maxPrice.value + 1 / 20 ≤ overflow

/-- The default rule is sober. -/
theorem sober_default : Sober {} where
  volumes := by norm_num [value, overflow]
  prices := by norm_num [value, overflow]

variable {rule : Config.Momentum} {sight : Sight} {a b : Decimal} {abort : Abort}

/-! ## The rule -/

omit [TimeZones] in
theorem product_error_iff :
    product a b = .error abort ↔ abort = .multiplication ∧ overflow ≤ |a.value * b.value| := by
  rw [← mul?_eq_none_iff]
  unfold product
  cases a.mul? b with
  | none => simp [Option.elim, eq_comm]
  | some d => simp [Option.elim]

omit [TimeZones] in
theorem product_ok (h : |a.value * b.value| < overflow) : ∃ d, product a b = .ok d := by
  cases hp : product a b with
  | ok d => exact ⟨d, rfl⟩
  | error e =>
    have := (product_error_iff.1 hp).2
    linarith

omit [TimeZones] in
/-- A volume is a decimal. -/
theorem ofInt?_ok {volume : ℤ} (h : |volume| ≤ 2 ^ 63) : ∃ d, ofInt? volume = some d := by
  cases hd : ofInt? volume with
  | some d => exact ⟨d, rfl⟩
  | none =>
    have := ofInt?_eq_none_iff.1 hd
    omega

theorem Sober.multiple_ok (h : Sober rule) {volume : ℤ} (hvolume : |volume| ≤ 2 ^ 63) :
    ∃ d, multiple rule.volumeRatio volume = .ok d := by
  obtain ⟨d, hd⟩ := ofInt?_ok hvolume
  unfold multiple
  rw [hd]
  apply product_ok
  have hle : |(volume : ℚ)| ≤ 2 ^ 63 := by exact_mod_cast hvolume
  calc |rule.volumeRatio.value * d.value|
      = |rule.volumeRatio.value| * |(volume : ℚ)| := by rw [abs_mul, ofInt?_value hd]
    _ ≤ |rule.volumeRatio.value| * 2 ^ 63 := mul_le_mul_of_nonneg_left hle (abs_nonneg _)
    _ < overflow := h.volumes

theorem isEntryPoint_of_overpriced (h : sight.Overpriced rule) :
    isEntryPoint rule sight.tens sight.minutes = .error .multiplication := by
  obtain ⟨hminutes, bar, hbar, hsession, hover⟩ := h
  have hproduct := product_error_iff.2 ⟨rfl, hover⟩
  obtain ⟨tens, minutes⟩ := sight
  cases minutes with
  | nil => exact absurd rfl hminutes
  | cons minute minutes =>
    cases tens with
    | nil => simp at hbar
    | cons first tens =>
      obtain rfl : first = bar := by simpa using hbar
      unfold isEntryPoint
      dsimp only at hproduct ⊢
      rw [if_pos hsession, hproduct]
      rfl

/-- **Nothing else makes the rule give up**, and the close of an entry is below the rule's bound. -/
theorem Sober.isEntryPoint_ok (hrule : Sober rule) (hcounted : sight.Counted)
    (h : ¬ sight.Overpriced rule) :
    ∃ yes, isEntryPoint rule sight.tens sight.minutes = .ok yes ∧
      (yes = true → ∀ bar ∈ sight.tens.head?, bar.closePrice < rule.maxPrice) := by
  obtain ⟨tens, minutes⟩ := sight
  cases tens with
  | nil => exact ⟨false, rfl, by simp⟩
  | cons bar tens =>
    cases minutes with
    | nil => exact ⟨false, rfl, by simp⟩
    | cons minute minutes =>
      unfold isEntryPoint
      dsimp only
      by_cases hsession : inSession rule bar = true
      · have hroom : |rule.gainRatio.value * (referenceOpen (bar :: tens)).value| < overflow := by
          by_contra hover
          exact h ⟨by simp, bar, rfl, hsession, not_lt.1 hover⟩
        -- the first product has room at this sight, the second one by the rule
        obtain ⟨hvolume, hrecent⟩ := hcounted bar rfl minute rfl
        obtain ⟨threshold, hthreshold⟩ := product_ok hroom
        obtain ⟨ceiling, hceiling⟩ := hrule.multiple_ok hrecent
        obtain ⟨volume, hvolume⟩ := ofInt?_ok hvolume
        rw [if_pos hsession, hthreshold]
        dsimp only [bind, Except.bind]
        split
        · rename_i hbounds
          rw [hceiling, hvolume]
          refine ⟨_, rfl, fun _ b hb => ?_⟩
          obtain rfl : bar = b := by simpa using hb
          exact hbounds.2.2.1
        · exact ⟨false, rfl, by simp⟩
      · rw [if_neg hsession]
        exact ⟨false, rfl, by simp⟩

omit [TimeZones] in
theorem limitMargin_value : Desk.limitMargin.value = 1 / 20 := by
  norm_num [Desk.limitMargin, value]

/-- The limit above a close below the rule's bound. -/
theorem Sober.limit_ok (hrule : Sober rule) {close : Decimal} (h : close < rule.maxPrice) :
    ∃ limit, close.add? Desk.limitMargin = some limit := by
  cases hadd : close.add? Desk.limitMargin with
  | some limit => exact ⟨limit, rfl⟩
  | none =>
    have hover := add?_eq_none_iff.1 hadd
    have hup := hrule.prices
    have hlt := lt_iff.1 h
    have hdown := neg_lt_of_abs_lt (abs_value_lt_overflow close)
    -- the margin is above zero, so a sum can only be too great
    rw [limitMargin_value, le_abs] at hover
    rcases hover with hover | hover <;> linarith

namespace Desk

variable {d : Desk} {ticker : String}

theorem signal?_error_iff (hrule : Sober d.rule) (hcounted : sight.Counted) :
    d.signal? ticker sight.tens sight.minutes = .error abort ↔
      abort = .multiplication ∧ sight.Overpriced d.rule := by
  unfold signal?
  by_cases hover : sight.Overpriced d.rule
  · rw [isEntryPoint_of_overpriced hover]
    simp [bind, Except.bind, hover, eq_comm]
  · obtain ⟨yes, hyes, hbound⟩ := hrule.isEntryPoint_ok hcounted hover
    rw [hyes]
    simp only [hover, and_false, iff_false, bind, Except.bind]
    cases yes with
    | false => simp
    | true =>
      rw [if_pos rfl]
      split
      · simp
      · rename_i bar hbar
        obtain ⟨limit, hlimit⟩ := hrule.limit_ok (hbound rfl bar hbar)
        rw [hlimit]
        simp

/-- The desk told of a ticker, with what it sees of it. -/
def look (d : Desk) (ticker : String) (sight : Sight) : Desk × Except Abort (Option Signal) :=
  d.update ticker sight.tens sight.minutes

/-- **A desk gives up** when it holds nothing and sees an overpriced ticker. -/
theorem look_error_iff (hrule : Sober d.rule) (hcounted : sight.Counted) :
    (d.look ticker sight).2 = .error abort ↔
      abort = .multiplication ∧ d.held = none ∧ sight.Overpriced d.rule := by
  unfold look update
  cases hheld : d.held with
  | some held => simp
  | none =>
    have hiff : d.signal? ticker sight.tens sight.minutes = .error abort ↔ _ :=
      signal?_error_iff hrule hcounted
    dsimp only
    rw [eq_self_iff_true, true_and, ← hiff]
    cases d.signal? ticker sight.tens sight.minutes with
    | error e => simp
    | ok answer =>
      cases answer with
      | none => simp
      | some signal => by_cases hr : d.receiving = true <;> simp [hr]

end Desk

end TapeReader.Momentum
