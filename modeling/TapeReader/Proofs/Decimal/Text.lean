import TapeReader.Decimal.Json
import TapeReader.Proofs.Text.Digits

/-!
# Decimals in text

* `chars_eq`: a decimal is written as a sign, the digits of the whole part, and a point with as many
  digits as it has decimals.
* `scan_whole`, `scan_fraction`: digits are read one after the other as long as the coefficient and
  the decimals have room.
* `ofText?_text`: **a decimal is read back from its text**, with its scale.
-/

namespace TapeReader.Decimal

open Text

variable {coefficient scale : ℕ} {ds : List ℕ} {rest : List Char}

/-! ## Reading digits -/

/-- **The digits of a whole part** are read when what they come to has room. -/
theorem scan_whole (started : Bool) (hds : ∀ d ∈ ds, d < 10)
    (hroom : extend coefficient ds ≤ maxCoefficient) :
    scan started false coefficient scale (ds.map Nat.digitChar ++ rest) =
      scan (started || !ds.isEmpty) false (extend coefficient ds) scale rest := by
  induction ds generalizing started coefficient with
  | nil => simp [extend]
  | cons d ds ih =>
    have hd := digit?_digitChar (hds d List.mem_cons_self)
    have hnext : ¬ maxCoefficient < coefficient * 10 + d := not_lt.2 ((le_extend _ ds).trans hroom)
    rw [List.map_cons, List.cons_append, scan, hd]
    simp only [Bool.false_eq_true, if_false, if_neg hnext]
    rw [ih true (fun e he => hds e (List.mem_cons_of_mem d he)) hroom]
    simp [extend]

/-- **The digits behind a point** are read when there is room for them and for what they come to. -/
theorem scan_fraction (hds : ∀ d ∈ ds, d < 10) (hroom : extend coefficient ds ≤ maxCoefficient)
    (hscale : scale + ds.length ≤ maxScale) :
    scan true true coefficient scale (ds.map Nat.digitChar) =
      some (extend coefficient ds, scale + ds.length) := by
  induction ds generalizing coefficient scale with
  | nil => rfl
  | cons d ds ih =>
    have hd := digit?_digitChar (hds d List.mem_cons_self)
    have hfits : ¬ (scale = maxScale ∨ maxCoefficient < coefficient * 10 + d) := by
      have hle := (le_extend (coefficient * 10 + d) ds).trans hroom
      rw [List.length_cons] at hscale
      omega
    rw [List.map_cons, scan, hd]
    simp only [if_true, if_neg hfits]
    rw [ih (fun e he => hds e (List.mem_cons_of_mem d he)) hroom (by rw [List.length_cons] at hscale; omega)]
    rw [List.length_cons]
    congr 2
    omega

/-! ## Reading what was written -/

/-- The digits of the whole part of a decimal. -/
def wholeDigits (d : Decimal) : List ℕ :=
  let ds := paddedDigits (d.scale + 1) d.coefficient.natAbs
  ds.take (ds.length - d.scale)

/-- The digits of the decimals. -/
def fractionDigits (d : Decimal) : List ℕ :=
  let ds := paddedDigits (d.scale + 1) d.coefficient.natAbs
  ds.drop (ds.length - d.scale)

/-- **How a decimal is written.** -/
theorem chars_eq (d : Decimal) : d.chars = (if d.coefficient < 0 then ['-'] else []) ++
    d.wholeDigits.map Nat.digitChar ++
      (if d.scale = 0 then [] else '.' :: d.fractionDigits.map Nat.digitChar) := by
  simp only [chars, wholeDigits, fractionDigits, padded_eq, List.length_map, List.map_take, List.map_drop]

theorem whole_append_fraction (d : Decimal) :
    d.wholeDigits ++ d.fractionDigits = paddedDigits (d.scale + 1) d.coefficient.natAbs :=
  List.take_append_drop _ _

theorem digits_lt (d : Decimal) : ∀ e ∈ d.wholeDigits ++ d.fractionDigits, e < 10 := by
  rw [whole_append_fraction]
  exact paddedDigits_lt _ _

theorem scale_lt_length_padded (d : Decimal) :
    d.scale < (paddedDigits (d.scale + 1) d.coefficient.natAbs).length := by
  rw [length_padded]
  omega

theorem wholeDigits_ne_nil (d : Decimal) : d.wholeDigits ≠ [] := by
  have hlt := d.scale_lt_length_padded
  refine List.ne_nil_of_length_pos ?_
  rw [wholeDigits, List.length_take]
  omega

theorem length_fractionDigits (d : Decimal) : d.fractionDigits.length = d.scale := by
  have hlt := d.scale_lt_length_padded
  rw [fractionDigits, List.length_drop]
  omega

theorem extend_digits (d : Decimal) :
    extend (extend 0 d.wholeDigits) d.fractionDigits = d.coefficient.natAbs := by
  have hvalue := value_padded (d.scale + 1) d.coefficient.natAbs
  rw [← whole_append_fraction] at hvalue
  rw [← hvalue]
  exact List.foldl_append.symm

/-- **The digits of a decimal are read to its coefficient and its scale.** -/
theorem scan_digits (d : Decimal) : scan false false 0 0 (d.wholeDigits.map Nat.digitChar ++
    (if d.scale = 0 then [] else '.' :: d.fractionDigits.map Nat.digitChar)) =
      some (d.coefficient.natAbs, d.scale) := by
  have hdigits := d.digits_lt
  have hroom : extend (extend 0 d.wholeDigits) d.fractionDigits ≤ maxCoefficient := by
    rw [extend_digits]
    exact d.coefficient_le
  have hstarted : (false || !d.wholeDigits.isEmpty) = true := by
    simp [d.wholeDigits_ne_nil]
  rw [scan_whole false (fun e he => hdigits e (List.mem_append_left _ he))
    ((le_extend _ _).trans hroom), hstarted]
  by_cases hscale : d.scale = 0
  · -- no decimals, so no point either, and the whole part is all there is
    have hnone : d.fractionDigits = [] := List.length_eq_zero_iff.1 (hscale ▸ d.length_fractionDigits)
    have hwhole := d.extend_digits
    rw [hnone] at hwhole
    rw [if_pos hscale, hscale]
    exact congrArg (fun n => some (n, 0)) hwhole
  · have hpoint : scan true false (extend 0 d.wholeDigits) 0
        ('.' :: d.fractionDigits.map Nat.digitChar) =
          scan true true (extend 0 d.wholeDigits) 0 (d.fractionDigits.map Nat.digitChar) := rfl
    rw [if_neg hscale, hpoint, scan_fraction (fun e he => hdigits e (List.mem_append_right _ he)) hroom
      (by rw [length_fractionDigits, zero_add]; exact d.scale_le), extend_digits,
      length_fractionDigits, zero_add]

theorem ofParts?_self (d : Decimal) : ofParts? d.coefficient d.scale = some d :=
  dif_pos ⟨d.coefficient_le, d.scale_le⟩

/-- A text that starts with a digit has no sign to be taken off. -/
theorem ofPlain?_digits {d : ℕ} (hd : d < 10) (rest : List Char) : ofPlain? (d.digitChar :: rest) =
    (scan false false 0 0 (d.digitChar :: rest)).bind fun p => ofParts? p.1 p.2 := by
  unfold ofPlain?
  split
  · rename_i heq
    exact absurd (List.cons.inj heq).1 (digitChar_ne hd rfl)
  · rename_i heq
    exact absurd (List.cons.inj heq).1 (digitChar_ne hd rfl)
  · rfl

theorem ofPlain?_chars (d : Decimal) : ofPlain? d.chars = some d := by
  have hscan := d.scan_digits
  rw [chars_eq]
  by_cases hneg : d.coefficient < 0
  · have hcoefficient : -(d.coefficient.natAbs : ℤ) = d.coefficient := by omega
    rw [if_pos hneg, List.append_assoc, List.singleton_append, ofPlain?, hscan, Option.bind_eq_bind,
      Option.bind_some]
    show ofParts? (-(d.coefficient.natAbs : ℤ)) d.scale = some d
    rw [hcoefficient, ofParts?_self]
  · have hcoefficient : (d.coefficient.natAbs : ℤ) = d.coefficient := by omega
    obtain ⟨e, es, hcons⟩ := List.exists_cons_of_ne_nil d.wholeDigits_ne_nil
    have he : e < 10 := d.digits_lt e (by simp [hcons])
    -- the text starts with a digit, so no sign is taken off
    rw [if_neg hneg, List.nil_append]
    rw [hcons, List.map_cons, List.cons_append] at hscan ⊢
    rw [ofPlain?_digits he, hscan, Option.bind_some, hcoefficient, ofParts?_self]

/-- **A decimal is read back from its text.** -/
theorem ofText?_text (d : Decimal) : ofText? d.text = some d := by
  rw [ofText?, text, String.toList_ofList, ofPlain?_chars, Option.some_or]

/-- A decimal is read back from what it is in JSON. -/
theorem ofJson?_toJson (d : Decimal) : ofJson? d.toJson = some d := ofText?_text d

end TapeReader.Decimal
