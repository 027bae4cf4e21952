import TapeReader.Proofs.Decimal.Value

/-!
# What has room in a decimal

A result is rounded to what a decimal can hold, and there is none when not even its whole part has
room.

* `overflow`: the numbers from which on the whole part has no room.
* `dropDecimals_nearest`: decimals are dropped to the nearest integer, a tie to the even one.
* `round?_eq_none_iff`: **a number is rounded unless it reaches `overflow`.**
* `mul?_eq_none_iff`, `add?_eq_none_iff`, `ofInt?_eq_none_iff`: so it is with products, sums and
  integers.
* `fit_eq_some`: what is rounded has some of its decimals dropped.
* `lt_value_of_mul?`: **one and a half times an integer is above it**, in whatever way it is rounded.
-/

namespace TapeReader.Decimal

/-- Half way from the greatest coefficient to the next integer, which is even: a number of this size
is rounded to that integer, which has no room. -/
def overflow : ℚ := 2 ^ 96 - 1 / 2

variable {i : ℤ} {k scale target : ℕ}

/-- **Dropped decimals leave the nearest integer**, the even one of two. -/
theorem dropDecimals_nearest (i : ℤ) (k : ℕ) :
    let rest := 2 * (i - 10 ^ k * dropDecimals i k)
    rest ≤ 10 ^ k ∧ -10 ^ k ≤ rest ∧
      ((rest = 10 ^ k ∨ rest = -10 ^ k) → dropDecimals i k % 2 = 0) := by
  intro rest
  have hd : (0 : ℤ) < 10 ^ k := by positivity
  have hi := Int.mul_ediv_add_emod i (10 ^ k)
  have hr0 := Int.emod_nonneg i hd.ne'
  have hrd := Int.emod_lt_of_pos i hd
  have hdef : dropDecimals i k =
      if 2 * (i % 10 ^ k) < 10 ^ k then i / 10 ^ k
      else if 10 ^ k < 2 * (i % 10 ^ k) then i / 10 ^ k + 1
      else i / 10 ^ k + i / 10 ^ k % 2 := rfl
  simp only [rest]
  rw [hdef]
  clear hdef rest
  generalize (10 : ℤ) ^ k = d at hd hi hr0 hrd ⊢
  generalize i % d = r at hi hr0 hrd ⊢
  generalize i / d = q at hi ⊢
  rcases lt_trichotomy (2 * r) d with hlt | heq | hgt
  · rw [if_pos hlt]
    omega
  · rw [if_neg (by omega), if_neg (by omega)]
    -- a tie goes up just when the whole part is odd
    rcases Int.emod_two_eq_zero_or_one q with hq | hq
    · rw [hq, add_zero]
      omega
    · rw [hq, mul_add, mul_one]
      omega
  · rw [if_neg (by omega), if_pos hgt, mul_add, mul_one]
    omega

/-- **What is left is within an odd bound** just when the number is below half way from it to the
next integer. -/
theorem dropDecimals_abs_le_iff {bound : ℤ} (hodd : bound % 2 = 1) :
    (-bound ≤ dropDecimals i k ∧ dropDecimals i k ≤ bound) ↔
      -((2 * bound + 1) * 10 ^ k) < 2 * i ∧ 2 * i < (2 * bound + 1) * 10 ^ k := by
  have hd : (0 : ℤ) < 10 ^ k := by positivity
  obtain ⟨hhi, hlo, htie⟩ := dropDecimals_nearest i k
  generalize dropDecimals i k = n at hlo hhi htie ⊢
  generalize (10 : ℤ) ^ k = d at hd hlo hhi htie ⊢
  have hle : ∀ m m' : ℤ, m ≤ m' → d * m ≤ d * m' := fun m m' h =>
    mul_le_mul_of_nonneg_left h hd.le
  have hedge : (2 * bound + 1) * d = 2 * (d * bound) + d := by ring
  rw [hedge]
  constructor
  · rintro ⟨hdown, hup⟩
    constructor
    · rcases hdown.lt_or_eq with hlt | heq
      · have := hle (-bound + 1) n (by omega)
        rw [mul_add, mul_one, mul_neg] at this
        omega
      · -- the bound is odd, so no tie went to it
        rw [← heq, mul_neg] at hlo hhi htie
        have := mt htie (by omega)
        omega
    · rcases hup.lt_or_eq with hlt | heq
      · have := hle n (bound - 1) (by omega)
        rw [mul_sub, mul_one] at this
        omega
      · rw [heq] at hlo hhi htie
        have := mt htie (by omega)
        omega
  · rintro ⟨hdown, hup⟩
    constructor
    · by_contra hn
      have := hle n (-bound - 1) (by omega)
      rw [mul_sub, mul_one, mul_neg] at this
      omega
    · by_contra hn
      have := hle (bound + 1) n (by omega)
      rw [mul_add, mul_one] at this
      omega

/-- **What is left has room** just when the number is below half way to the next integer. -/
theorem dropDecimals_natAbs_le_iff (i : ℤ) (k : ℕ) :
    (dropDecimals i k).natAbs ≤ 2 ^ 96 - 1 ↔
      -((2 ^ 97 - 1) * 10 ^ k) < 2 * i ∧ 2 * i < (2 ^ 97 - 1) * 10 ^ k := by
  have hodd : (2 ^ 96 - 1 : ℤ) % 2 = 1 := by norm_num
  have hbound := dropDecimals_abs_le_iff (i := i) (k := k) hodd
  rw [show (2 ^ 97 - 1 : ℤ) = 2 * (2 ^ 96 - 1) + 1 by norm_num, ← hbound]
  omega

theorem ofParts?_eq_none_iff : ofParts? i scale = none ↔ ¬ (i.natAbs ≤ 2 ^ 96 - 1 ∧ scale ≤ 28) := by
  unfold ofParts?
  by_cases h : i.natAbs ≤ 2 ^ 96 - 1 ∧ scale ≤ 28
  · rw [dif_pos h]
    exact iff_of_false (by simp) (not_not.2 h)
  · rw [dif_neg h]
    exact iff_of_true rfl h

theorem ofParts?_eq_some {d : Decimal} (h : ofParts? i scale = some d) :
    d.coefficient = i ∧ d.scale = scale := by
  unfold ofParts? at h
  split at h
  · cases h
    exact ⟨rfl, rfl⟩
  · cases h

/-- A number fits at some number of decimals unless its whole part has no room. -/
theorem fit_eq_none_iff (i : ℤ) (scale target : ℕ) :
    fit i scale target = none ↔ ¬ (dropDecimals i scale).natAbs ≤ 2 ^ 96 - 1 := by
  induction target with
  | zero =>
    unfold fit
    rw [ofParts?_eq_none_iff]
    simp
  | succ target ih =>
    unfold fit
    rw [Option.or_eq_none_iff, ih, and_iff_right_iff_imp, ofParts?_eq_none_iff]
    -- with fewer decimals dropped, even less has room
    intro hnone hroom
    apply hnone
    have hpow : (10 : ℤ) ^ (scale - (target + 1)) ≤ 10 ^ scale :=
      pow_le_pow_right₀ (by norm_num) (Nat.sub_le _ _)
    have hless := (dropDecimals_natAbs_le_iff i (scale - (target + 1))).1 hroom.1
    refine (dropDecimals_natAbs_le_iff i scale).2 ?_
    omega

/-- A number that fits has decimals dropped to the nearest coefficient. -/
theorem fit_eq_some {d : Decimal} (h : fit i scale target = some d) :
    d.scale ≤ target ∧ d.coefficient = dropDecimals i (scale - d.scale) := by
  induction target with
  | zero =>
    unfold fit at h
    obtain ⟨hcoefficient, hscale⟩ := ofParts?_eq_some h
    rw [hcoefficient, hscale]
    exact ⟨le_rfl, rfl⟩
  | succ target ih =>
    unfold fit at h
    rcases Option.or_eq_some_iff.1 h with hfits | ⟨-, hfewer⟩
    · obtain ⟨hcoefficient, hscale⟩ := ofParts?_eq_some hfits
      rw [hcoefficient, hscale]
      exact ⟨le_rfl, rfl⟩
    · obtain ⟨hscale, hcoefficient⟩ := ih hfewer
      exact ⟨by omega, hcoefficient⟩

/-- **A number is rounded unless it reaches `overflow`.** -/
theorem round?_eq_none_iff (i : ℤ) (scale : ℕ) :
    round? i scale = none ↔ overflow ≤ |(i : ℚ) / 10 ^ scale| := by
  unfold round?
  have hd : (0 : ℚ) < 10 ^ scale := by positivity
  rw [fit_eq_none_iff, dropDecimals_natAbs_le_iff, not_iff_comm, not_le, abs_lt, overflow,
    div_lt_iff₀ hd, lt_div_iff₀ hd]
  constructor
  · rintro ⟨hlo, hhi⟩
    constructor
    · have hlo : (-((2 ^ 96 - 1 / 2) * 10 ^ scale) * 2 : ℚ) < i * 2 := by linarith
      have : (-((2 ^ 97 - 1) * 10 ^ scale) : ℚ) < 2 * i := by linarith
      exact_mod_cast this
    · have : (2 * i : ℚ) < (2 ^ 97 - 1) * 10 ^ scale := by linarith
      exact_mod_cast this
  · rintro ⟨hlo, hhi⟩
    have hlo : (-((2 ^ 97 - 1) * 10 ^ scale) : ℚ) < 2 * i := by exact_mod_cast hlo
    have hhi : (2 * i : ℚ) < (2 ^ 97 - 1) * 10 ^ scale := by exact_mod_cast hhi
    constructor <;> linarith

variable {a b : Decimal}

/-- A decimal is below `overflow` itself. -/
theorem abs_value_lt_overflow (d : Decimal) : |d.value| < overflow := by
  have hcoefficient : |(d.coefficient : ℚ)| ≤ 2 ^ 96 - 1 := by
    have hle : |d.coefficient| ≤ 2 ^ 96 - 1 := by
      have := d.coefficient_le
      rw [Int.abs_eq_natAbs]
      omega
    exact_mod_cast hle
  have hscale : (1 : ℚ) ≤ 10 ^ d.scale := one_le_pow₀ (by norm_num)
  calc |d.value| = |(d.coefficient : ℚ)| / 10 ^ d.scale := by
        unfold value
        rw [abs_div, abs_of_pos (by positivity : (0 : ℚ) < 10 ^ d.scale)]
    _ ≤ |(d.coefficient : ℚ)| := div_le_self (abs_nonneg _) hscale
    _ < overflow := by
        unfold overflow
        linarith

theorem value_eq_zero_iff : a.value = 0 ↔ a.coefficient = 0 := by
  unfold value
  simp

/-- **There is no product of two decimals** just when the exact one reaches `overflow`. -/
theorem mul?_eq_none_iff : a.mul? b = none ↔ overflow ≤ |a.value * b.value| := by
  unfold mul?
  split
  · rename_i hzero
    have hprod : a.value * b.value = 0 := by
      rw [mul_eq_zero, value_eq_zero_iff, value_eq_zero_iff]
      exact hzero
    rw [hprod, abs_zero]
    simp only [reduceCtorEq, false_iff, not_le]
    norm_num [overflow]
  · rw [round?_eq_none_iff]
    have hprod : ((a.coefficient * b.coefficient : ℤ) : ℚ) / 10 ^ (a.scale + b.scale) =
        a.value * b.value := by
      unfold value
      push_cast
      rw [pow_add, mul_div_mul_comm]
    rw [hprod]

/-- The value of a decimal, written with more decimals. -/
theorem value_eq_of_le (h : a.scale ≤ scale) :
    (a.coefficient : ℚ) * 10 ^ (scale - a.scale) / 10 ^ scale = a.value := by
  unfold value
  rw [div_eq_div_iff (by positivity) (by positivity), mul_assoc, ← pow_add, Nat.sub_add_cancel h]

/-- **There is no sum of two decimals** just when the exact one reaches `overflow`. -/
theorem add?_eq_none_iff : a.add? b = none ↔ overflow ≤ |a.value + b.value| := by
  unfold add?
  dsimp only
  rw [round?_eq_none_iff]
  push_cast
  rw [add_div, value_eq_of_le (Nat.le_max_left _ _), value_eq_of_le (Nat.le_max_right _ _)]

theorem ofInt?_eq_none_iff : ofInt? i = none ↔ 2 ^ 96 ≤ |i| := by
  unfold ofInt?
  rw [ofParts?_eq_none_iff]
  rcases abs_cases i with ⟨h, _⟩ | ⟨h, _⟩ <;> rw [h] <;> omega

theorem ofInt?_value {d : Decimal} (h : ofInt? i = some d) : d.value = i := by
  obtain ⟨hcoefficient, hscale⟩ := ofParts?_eq_some h
  unfold value
  rw [hcoefficient, hscale, pow_zero, div_one]

/-- **Three halves of an integer stay above it** when decimals are dropped, and so does more. -/
theorem lt_dropDecimals {m : ℤ} (hm : 1 ≤ m) (h : 3 * (m * 10 ^ k) ≤ 2 * i) :
    m < dropDecimals i k := by
  have hd : (0 : ℤ) < 10 ^ k := by positivity
  obtain ⟨hhi, -, htie⟩ := dropDecimals_nearest i k
  generalize dropDecimals i k = q at hhi htie ⊢
  generalize (10 : ℤ) ^ k = d at hd hhi htie h
  by_contra hle
  have hqm : d * q ≤ d * m := mul_le_mul_of_nonneg_left (by omega) hd.le
  have hcomm : m * d = d * m := mul_comm m d
  -- the number is half way above the integer at most, so it is half way above one
  have hone : d * m ≤ d * 1 := by omega
  obtain rfl : m = 1 := le_antisymm (le_of_mul_le_mul_left hone hd) hm
  have hq : d * 1 ≤ d * q := by omega
  obtain rfl : q = 1 := le_antisymm (by omega) (le_of_mul_le_mul_left hq hd)
  -- and that is a tie, which does not go to one
  have := htie (Or.inl (by omega))
  omega

/-- **A product of a ratio of one and a half or more with a positive integer is above the integer**,
however many of its decimals have been dropped. -/
theorem lt_value_of_mul? {n : ℤ} {d : Decimal} (hratio : 3 / 2 ≤ a.value) (hn : 1 ≤ n)
    (hb : ofInt? n = some b) (hd : a.mul? b = some d) : (n : ℚ) < d.value := by
  obtain ⟨hcoefficient, hscale⟩ := ofParts?_eq_some hb
  have hten : ∀ k : ℕ, (0 : ℚ) < 10 ^ k := fun k => by positivity
  have hanonzero : a.coefficient ≠ 0 := fun hzero => by
    rw [value_eq_zero_iff.2 hzero] at hratio
    norm_num at hratio
  unfold mul? at hd
  rw [if_neg (by omega), hcoefficient, hscale, add_zero] at hd
  obtain ⟨hle, hrounded⟩ := fit_eq_some hd
  have hle : d.scale ≤ a.scale := hle.trans (Nat.min_le_left _ _)
  -- the exact product is three halves of the integer at least, written with the decimals of the ratio
  have hexact : 3 * (n * 10 ^ d.scale * 10 ^ (a.scale - d.scale)) ≤ 2 * (a.coefficient * n) := by
    rw [mul_assoc, ← pow_add, Nat.add_sub_cancel' hle]
    unfold value at hratio
    rw [le_div_iff₀ (hten _)] at hratio
    have hthree : (3 * 10 ^ a.scale : ℤ) ≤ 2 * a.coefficient := by
      have : (3 * 10 ^ a.scale : ℚ) ≤ 2 * a.coefficient := by linarith
      exact_mod_cast this
    calc 3 * (n * 10 ^ a.scale) = n * (3 * 10 ^ a.scale) := by ring
      _ ≤ n * (2 * a.coefficient) := mul_le_mul_of_nonneg_left hthree (by omega)
      _ = 2 * (a.coefficient * n) := by ring
  have hone : 1 ≤ n * 10 ^ d.scale := by
    have : (0 : ℤ) < 10 ^ d.scale := by positivity
    exact Int.add_one_le_iff.2 (mul_pos (by omega) this)
  have hlt := lt_dropDecimals hone hexact
  rw [← hrounded] at hlt
  unfold value
  rw [lt_div_iff₀ (hten _)]
  exact_mod_cast hlt

end TapeReader.Decimal
