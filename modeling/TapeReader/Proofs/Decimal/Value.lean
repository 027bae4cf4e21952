import Mathlib
import TapeReader.Decimal.Basic

/-!
# Decimals by value

* `value`: the number that a decimal denotes; `lt_iff` reads the order of decimals off it.
* `IsMax`, `IsMin`: a decimal that stands in a list and that no other one of the list exceeds, or
  undercuts, in value.
* `isMax_max`, `isMin_min`: **the greater, and the lesser, of two extends them by one element.**
* `IsMax.of_flatMap`, `IsMin.of_flatMap`: the greatest, and the least, of lists strung together is
  in value that of the greatest, and the least, of each.
-/

namespace TapeReader.Decimal

/-- The number denoted. -/
def value (d : Decimal) : ℚ := d.coefficient / 10 ^ d.scale

variable {a b d : Decimal} {ds : List Decimal}

theorem lt_iff : a < b ↔ a.value < b.value := by
  have ha : (0 : ℚ) < 10 ^ a.scale := by positivity
  have hb : (0 : ℚ) < 10 ^ b.scale := by positivity
  unfold value
  rw [div_lt_div_iff₀ ha hb]
  show a.coefficient * 10 ^ b.scale < b.coefficient * 10 ^ a.scale ↔ _
  exact_mod_cast Iff.rfl

/-- The decimal stands in the list, and nothing in the list is greater. -/
def IsMax (d : Decimal) (ds : List Decimal) : Prop := d ∈ ds ∧ ∀ e ∈ ds, e.value ≤ d.value

/-- The decimal stands in the list, and nothing in the list is less. -/
def IsMin (d : Decimal) (ds : List Decimal) : Prop := d ∈ ds ∧ ∀ e ∈ ds, d.value ≤ e.value

theorem isMax_singleton (d : Decimal) : d.IsMax [d] := by simp [IsMax]

theorem isMin_singleton (d : Decimal) : d.IsMin [d] := by simp [IsMin]

theorem isMax_max (h : d.IsMax ds) (e : Decimal) : (d.max e).IsMax (ds ++ [e]) := by
  obtain ⟨hmem, hle⟩ := h
  unfold max
  split
  · rename_i hlt
    refine ⟨by simp, fun x hx => ?_⟩
    rcases List.mem_append.1 hx with hx | hx
    · exact le_trans (hle x hx) (lt_iff.1 hlt).le
    · rw [List.mem_singleton.1 hx]
  · rename_i hlt
    refine ⟨List.mem_append_left _ hmem, fun x hx => ?_⟩
    rcases List.mem_append.1 hx with hx | hx
    · exact hle x hx
    · rw [List.mem_singleton.1 hx]; exact not_lt.1 (mt lt_iff.2 hlt)

theorem isMin_min (h : d.IsMin ds) (e : Decimal) : (d.min e).IsMin (ds ++ [e]) := by
  obtain ⟨hmem, hle⟩ := h
  unfold min
  split
  · rename_i hlt
    refine ⟨by simp, fun x hx => ?_⟩
    rcases List.mem_append.1 hx with hx | hx
    · exact le_trans (lt_iff.1 hlt).le (hle x hx)
    · rw [List.mem_singleton.1 hx]
  · rename_i hlt
    refine ⟨List.mem_append_left _ hmem, fun x hx => ?_⟩
    rcases List.mem_append.1 hx with hx | hx
    · exact hle x hx
    · rw [List.mem_singleton.1 hx]; exact not_lt.1 (mt lt_iff.2 hlt)

variable {α : Type} {l : List α} {f : α → List Decimal} {g : α → Decimal}

theorem IsMax.of_flatMap (h : d.IsMax (l.flatMap f)) (hg : ∀ a ∈ l, (g a).IsMax (f a)) :
    IsGreatest {v | ∃ a ∈ l, (g a).value = v} d.value := by
  have hle : ∀ a ∈ l, (g a).value ≤ d.value := fun a ha =>
    h.2 (g a) (List.mem_flatMap.2 ⟨a, ha, (hg a ha).1⟩)
  obtain ⟨a, ha, hd⟩ := List.mem_flatMap.1 h.1
  refine ⟨⟨a, ha, le_antisymm (hle a ha) ((hg a ha).2 d hd)⟩, ?_⟩
  rintro v ⟨b, hb, rfl⟩
  exact hle b hb

theorem IsMin.of_flatMap (h : d.IsMin (l.flatMap f)) (hg : ∀ a ∈ l, (g a).IsMin (f a)) :
    IsLeast {v | ∃ a ∈ l, (g a).value = v} d.value := by
  have hle : ∀ a ∈ l, d.value ≤ (g a).value := fun a ha =>
    h.2 (g a) (List.mem_flatMap.2 ⟨a, ha, (hg a ha).1⟩)
  obtain ⟨a, ha, hd⟩ := List.mem_flatMap.1 h.1
  refine ⟨⟨a, ha, le_antisymm ((hg a ha).2 d hd) (hle a ha)⟩, ?_⟩
  rintro v ⟨b, hb, rfl⟩
  exact hle b hb

end TapeReader.Decimal
