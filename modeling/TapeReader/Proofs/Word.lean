import Mathlib
import TapeReader.Word

/-!
# Integers in 64 bits

* `wrap_of_signed`: what has 64 bits stays as it is.
* `wrap_wrap_add`, `wrap_add_wrap`: **a sum comes out as it would if only the whole of it were wrapped.**
-/

namespace TapeReader

/-- An integer of 64 bits with sign. -/
def Signed (i : ℤ) : Prop := -2 ^ 63 ≤ i ∧ i < 2 ^ 63

instance : DecidablePred Signed := fun _ => inferInstanceAs (Decidable (_ ∧ _))

variable {i j : ℤ}

/-- The rest that an integer leaves, moved to the middle. -/
theorem wrap_eq (i : ℤ) : wrap i = (i + 2 ^ 63) % 2 ^ 64 - 2 ^ 63 := by
  unfold wrap
  rw [Int64.toInt_ofInt, Int.bmod_def, show ((Int64.size : ℕ) : ℤ) = 2 ^ 64 from rfl]
  split <;> omega

theorem signed_wrap (i : ℤ) : Signed (wrap i) := by
  rw [wrap_eq]
  constructor <;> omega

theorem wrap_of_signed (h : Signed i) : wrap i = i := by
  obtain ⟨hlow, hhigh⟩ := h
  rw [wrap_eq]
  omega

theorem wrap_eq_zero_iff : wrap i = 0 ↔ 2 ^ 64 ∣ i := by
  rw [wrap_eq]
  omega

/-- A part of a sum may be wrapped before the whole is. -/
theorem wrap_wrap_add (i j : ℤ) : wrap (wrap i + j) = wrap (i + j) := by
  simp only [wrap_eq]
  omega

theorem wrap_add_wrap (i j : ℤ) : wrap (i + wrap j) = wrap (i + j) := by
  rw [add_comm, wrap_wrap_add, add_comm]

end TapeReader
