import Mathlib
import TapeReader.Text.Digits

/-!
# Numbers written in digits

* `digits`: the digits of a number; `ofNat_eq`, `padded_eq`: a number is written as its digits, filled
  with zeros in front up to a width.
* `NoDigit`: a text that does not go on with a digit.
* `takeDigits_map`: **the digits at the front of a text are those that were written there.**
* `value_digits`, `value_padded`: digits name the number they were written for.
* `extend`: digits written behind a number.
-/

namespace TapeReader.Text

variable {base width n d : ℕ} {ds : List ℕ} {rest : List Char}

/-! ## The digits of a number -/

/-- The digits of a number in base ten, most significant first. -/
def digits (n : ℕ) : List ℕ := if n < 10 then [n] else digits (n / 10) ++ [n % 10]

/-- The digits of a number, with zeros in front up to a width. -/
def paddedDigits (width n : ℕ) : List ℕ :=
  List.replicate (width - (digits n).length) 0 ++ digits n

theorem digits_of_lt (h : n < 10) : digits n = [n] := by rw [digits, if_pos h]

theorem digits_of_le (h : 10 ≤ n) : digits n = digits (n / 10) ++ [n % 10] := by
  rw [digits, if_neg h.not_gt]

/-- What holds of numbers of one digit, and of a number when it holds of the number without its last
digit, holds of all. -/
theorem digits_induction {P : ℕ → Prop} (single : ∀ n < 10, P n)
    (longer : ∀ n, 10 ≤ n → P (n / 10) → P n) (n : ℕ) : P n := by
  induction n using Nat.strong_induction_on with
  | _ n ih =>
    rcases lt_or_ge n 10 with h | h
    · exact single n h
    · exact longer n h (ih (n / 10) (by omega))

theorem ofNat_eq (n : ℕ) : ofNat n = (digits n).map Nat.digitChar := by
  unfold ofNat
  induction n using digits_induction with
  | single n h => rw [Nat.toDigits_of_lt_base h, digits_of_lt h, List.map_singleton]
  | longer n h ih =>
    rw [Nat.toDigits_of_base_le (by decide) h, digits_of_le h, ih, List.map_append,
      List.map_singleton]

theorem digits_lt (n : ℕ) : ∀ d ∈ digits n, d < 10 := by
  induction n using digits_induction with
  | single n h => simpa [digits_of_lt h] using h
  | longer n h ih =>
    rw [digits_of_le h]
    intro d hd
    rcases List.mem_append.1 hd with hd | hd
    · exact ih d hd
    · rw [List.mem_singleton.1 hd]
      exact Nat.mod_lt n (by decide)

theorem digits_ne_nil (n : ℕ) : digits n ≠ [] := by
  rw [digits]
  split <;> simp

/-- Only zero starts with a zero. -/
theorem head?_digits (h : n ≠ 0) : (digits n).head? ≠ some 0 := by
  induction n using digits_induction with
  | single n hn => simpa [digits_of_lt hn] using h
  | longer n hn ih =>
    rw [digits_of_le hn, List.head?_append_of_ne_nil _ (digits_ne_nil _)]
    exact ih (by omega)

theorem length_digits_le (hwidth : 0 < width) (h : n < 10 ^ width) : (digits n).length ≤ width := by
  rw [← List.length_map Nat.digitChar, ← ofNat_eq]
  exact (Nat.length_toDigits_le_iff (by decide) hwidth).2 h

/-! ## The number that digits name -/

theorem value_append_singleton (base : ℕ) (ds : List ℕ) (d : ℕ) :
    value base (ds ++ [d]) = value base ds * base + d := by
  simp [value]

theorem value_digits (n : ℕ) : value 10 (digits n) = n := by
  induction n using digits_induction with
  | single n h => simp [digits_of_lt h, value]
  | longer n h ih =>
    rw [digits_of_le h, value_append_singleton, ih]
    omega

theorem value_zeros_append (base k : ℕ) (ds : List ℕ) :
    value base (List.replicate k 0 ++ ds) = value base ds := by
  induction k with
  | zero => rfl
  | succ k ih =>
    rw [← ih]
    simp [value, List.replicate_succ]

theorem value_padded (width n : ℕ) : value 10 (paddedDigits width n) = n := by
  rw [paddedDigits, value_zeros_append, value_digits]

/-- Digits written behind a number. -/
def extend (n : ℕ) (ds : List ℕ) : ℕ := ds.foldl (fun n d => n * 10 + d) n

/-- More digits never make less. -/
theorem le_extend (n : ℕ) (ds : List ℕ) : n ≤ extend n ds := by
  induction ds generalizing n with
  | nil => exact le_rfl
  | cons d ds ih => exact le_trans (by omega) (ih (n * 10 + d))

/-! ## Digits in a text -/

theorem padded_eq (width n : ℕ) : padded width n = (paddedDigits width n).map Nat.digitChar := by
  have hzero : '0' = Nat.digitChar 0 := rfl
  rw [padded, paddedDigits, ofNat_eq, List.length_map, List.map_append, List.map_replicate, hzero]

theorem paddedDigits_lt (width n : ℕ) : ∀ d ∈ paddedDigits width n, d < 10 := by
  intro d hd
  rcases List.mem_append.1 hd with hd | hd
  · rw [List.eq_of_mem_replicate hd]
    decide
  · exact digits_lt n d hd

theorem length_padded (width n : ℕ) :
    (paddedDigits width n).length = max width (digits n).length := by
  rw [paddedDigits, List.length_append, List.length_replicate]
  omega

theorem length_padded_of_lt (hwidth : 0 < width) (h : n < 10 ^ width) :
    (paddedDigits width n).length = width := by
  rw [length_padded, max_eq_left (length_digits_le hwidth h)]

theorem digit?_digitChar (h : d < 10) : digit? d.digitChar = some d := by
  have hall : ∀ d < 10, digit? (Nat.digitChar d) = some d := by decide
  exact hall d h

theorem digitChar_ne {c : Char} (hd : d < 10) (hc : digit? c = none) : d.digitChar ≠ c := by
  rintro rfl
  rw [digit?_digitChar hd] at hc
  cases hc

/-- The text does not go on with a digit. -/
def NoDigit (rest : List Char) : Prop := ∀ c ∈ rest.head?, digit? c = none

theorem noDigit_nil : NoDigit [] := by simp [NoDigit]

theorem noDigit_cons {c : Char} (h : digit? c = none) : NoDigit (c :: rest) := by simpa [NoDigit]

theorem takeDigits_of_noDigit (h : NoDigit rest) : takeDigits rest = ([], rest) := by
  cases rest with
  | nil => rfl
  | cons c rest =>
    have hc : digit? c = none := h c rfl
    rw [takeDigits, hc]

/-- **The digits at the front of a text are those that were written there.** -/
theorem takeDigits_map (hds : ∀ d ∈ ds, d < 10) (hrest : NoDigit rest) :
    takeDigits (ds.map Nat.digitChar ++ rest) = (ds, rest) := by
  induction ds with
  | nil => exact takeDigits_of_noDigit hrest
  | cons d ds ih =>
    have hd := digit?_digitChar (hds d List.mem_cons_self)
    rw [List.map_cons, List.cons_append, takeDigits, hd, ih fun e he => hds e (List.mem_cons_of_mem d he)]

/-- Digits are taken the same, whatever comes behind them that is none. -/
theorem takeDigits_append {tail : List Char} (s : List Char) (h : NoDigit tail) :
    takeDigits (s ++ tail) = ((takeDigits s).1, (takeDigits s).2 ++ tail) := by
  induction s with
  | nil => exact takeDigits_of_noDigit h
  | cons c s ih =>
    rw [List.cons_append, takeDigits, takeDigits, ih]
    cases digit? c <;> rfl

end TapeReader.Text
