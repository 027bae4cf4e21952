import TapeReader.Clock.TimeOfDay
import TapeReader.Proofs.Text.Digits

/-!
# Times of day in text

* `twoDigits?_padded`, `nanos?_padded`: numbers of two digits, and fractions of a second, are read as
  they were written.
* `seconds?_written`: so are the seconds with their fraction, in three, six or nine digits or none.
* `TimeOfDay.ofText?_text`: **a time of day is read back from its text**, the one in a leap second too.
-/

namespace TapeReader.TimeOfDay

open Text

variable {d m n width : ℕ} {rest : List Char}

/-! ## The parts of a time -/

theorem padded_two (h : n < 100) : padded 2 n = [Nat.digitChar (n / 10), Nat.digitChar (n % 10)] := by
  have hall : ∀ n < 100, padded 2 n = [Nat.digitChar (n / 10), Nat.digitChar (n % 10)] := by
    decide +kernel
  exact hall n h

theorem trimLeft_digit (h : d < 10) (rest : List Char) :
    trimLeft (d.digitChar :: rest) = d.digitChar :: rest := by
  have hall : ∀ d < 10, Text.isBlank (Nat.digitChar d) = false := by decide
  rw [trimLeft, List.dropWhile_cons, hall d h]
  rfl

/-- **Two digits are read** as the number they were written for. -/
theorem twoDigits?_padded (h : n < 100) (rest : List Char) :
    twoDigits? (padded 2 n ++ rest) = some (n, rest) := by
  have htens : n / 10 < 10 := by omega
  have hones : n % 10 < 10 := Nat.mod_lt n (by decide)
  rw [padded_two h, List.cons_append, List.singleton_append, twoDigits?, trimLeft_digit htens]
  simp only [digit?_digitChar htens, digit?_digitChar hones, Option.bind_eq_bind, Option.bind_some]
  congr 2
  omega

/-- **A fraction of a second is read** in nanoseconds, from any number of digits up to nine. -/
theorem nanos?_padded (hwidth : 0 < width) (hnine : width ≤ 9) (h : m < 10 ^ width)
    (hrest : NoDigit rest) :
    nanos? (padded width m ++ rest) = some (m * 10 ^ (9 - width), rest) := by
  have hlength := length_padded_of_lt hwidth h
  have hvalue := value_padded width m
  -- a point without a digit behind it is refused, so there has to be a first digit
  obtain ⟨d, ds, hcons⟩ :=
    List.exists_cons_of_ne_nil (List.ne_nil_of_length_pos (hlength ▸ hwidth))
  unfold nanos?
  rw [padded_eq, takeDigits_map (paddedDigits_lt width m) hrest]
  rw [hcons] at hlength hvalue ⊢
  simp only [List.take_of_length_le (hlength.trans_le hnine), hlength, hvalue]

/-- **A fraction is left out** when there is none, and else it is read back behind its point. -/
theorem fraction_cases (h : n < 10 ^ 9) :
    (n = 0 ∧ fraction n = []) ∨ ∃ ds, fraction n = '.' :: ds ∧ nanos? ds = some (n, []) := by
  have hread : ∀ {width k : ℕ}, 0 < width → width ≤ 9 → k < 10 ^ width → k * 10 ^ (9 - width) = n →
      nanos? (padded width k) = some (n, []) := by
    intro width k hwidth hnine hk hn
    have hpadded := nanos?_padded hwidth hnine hk noDigit_nil
    rwa [List.append_nil, hn] at hpadded
  unfold fraction
  split_ifs with hzero hmillis hmicros
  · exact .inl ⟨hzero, rfl⟩
  · exact .inr ⟨_, rfl, hread (by decide) (by decide) (by omega) (by omega)⟩
  · exact .inr ⟨_, rfl, hread (by decide) (by decide) (by omega) (by omega)⟩
  · exact .inr ⟨_, rfl, hread (by decide) (by decide) h (by omega)⟩

/-- **The seconds are read back** with their fraction. -/
theorem seconds?_written (hsecond : m < 100) (hnano : n < 10 ^ 9) :
    seconds? (':' :: padded 2 m ++ fraction n) = some (m, n, []) := by
  have hcolon : colon? (':' :: padded 2 m ++ fraction n) = some (padded 2 m ++ fraction n) := rfl
  unfold seconds?
  simp only [hcolon, Option.bind_eq_bind, Option.bind_some, twoDigits?_padded hsecond]
  rcases fraction_cases hnano with ⟨rfl, hnone⟩ | ⟨ds, hpoint, hread⟩
  · rw [hnone]
  · simp only [hpoint, hread, Option.bind_some]

/-! ## The whole time -/

/-- The hour, the minute, the second and the fraction of a time are those it is made of. The 59th
second that goes on is the second 60. -/
theorem ofParts?_self (t : TimeOfDay) : ofParts? (t.second / 3600) (t.second / 60 % 60)
    (t.second % 60 + t.nano / 10 ^ 9) (t.nano % 10 ^ 9) = some t := by
  obtain ⟨second, nano, hsecond, hnano⟩ := t
  have hparts : second / 3600 < 24 ∧ second / 60 % 60 < 60 ∧ second % 60 + nano / 10 ^ 9 ≤ 60 ∧
      nano % 10 ^ 9 < 10 ^ 9 := by omega
  show ofParts? (second / 3600) (second / 60 % 60) (second % 60 + nano / 10 ^ 9) (nano % 10 ^ 9) = _
  unfold ofParts?
  rw [dif_pos hparts]
  -- the second 60 is written for a time whose nanoseconds come to a whole second, and for no other
  split_ifs with hleap
  · simp only [Option.some.injEq, TimeOfDay.mk.injEq]
    omega
  · simp only [Option.some.injEq, TimeOfDay.mk.injEq]
    omega

/-- **A time of day is read back from its text.** -/
theorem ofText?_text (t : TimeOfDay) : ofText? t.text = some t := by
  have hsecond := t.second_lt
  have hnano := t.nano_lt
  have hchars : t.chars = padded 2 (t.second / 3600) ++ (':' :: (padded 2 (t.second / 60 % 60) ++
      (':' :: padded 2 (t.second % 60 + t.nano / 10 ^ 9) ++ fraction (t.nano % 10 ^ 9)))) := by
    simp only [chars, List.append_assoc, List.cons_append]
  have hcolon : ∀ rest, colon? (':' :: rest) = some rest := fun _ => rfl
  rw [ofText?, text, String.toList_ofList, hchars, ofChars?]
  simp only [Option.bind_eq_bind, Option.bind_some, hcolon,
    twoDigits?_padded (show t.second / 3600 < 100 by omega),
    twoDigits?_padded (show t.second / 60 % 60 < 100 by omega),
    seconds?_written (show t.second % 60 + t.nano / 10 ^ 9 < 100 by omega)
      (show t.nano % 10 ^ 9 < 10 ^ 9 by omega), Option.getD_some]
  exact ofParts?_self t

end TapeReader.TimeOfDay
