import TapeReader.Json.Numeral
import TapeReader.Proofs.Text.Digits

/-!
# Numbers in JSON text, written and read

* `Ends`: a text that does not go on with a number.
* `Fits`: the integers of 64 bits, with or without sign.
* `read?_ofInt`, `number?_ofInteger`: **an integer of 64 bits is read back** from its digits.
* `read?_append`: a number is read the same, whatever comes behind it that does not go on with it.
-/

namespace TapeReader.Json.Numeral

open Text

variable {i : ℤ} {m : ℕ} {ds : List ℕ} {s rest tail : List Char} {n : Numeral}

/-- The text does not go on with a number: neither a digit nor a point nor an exponent is next. -/
structure Ends (tail : List Char) : Prop where
  noDigit : NoDigit tail
  noPoint : tail.head? ≠ some '.'
  noExponent : tail.head? ≠ some 'e' ∧ tail.head? ≠ some 'E'

theorem ends_nil : Ends [] := ⟨noDigit_nil, by simp, by simp⟩

theorem ends_cons {c : Char} (h : digit? c = none ∧ c ≠ '.' ∧ c ≠ 'e' ∧ c ≠ 'E') : Ends (c :: rest) :=
  ⟨noDigit_cons h.1, by simpa using h.2.1, by simpa using h.2.2⟩

/-! ## An integer -/

/-- An integer of 64 bits, with or without sign. -/
def Fits (i : ℤ) : Prop := -2 ^ 63 ≤ i ∧ i < 2 ^ 64

/-- The number as it is written: its sign and its digits. -/
def ofInteger (i : ℤ) : Numeral := ⟨decide (i < 0), digits i.natAbs, none, none⟩

theorem someDigits?_eq_some_iff :
    someDigits? s = some (ds, rest) ↔ takeDigits s = (ds, rest) ∧ ds ≠ [] := by
  unfold someDigits?
  split
  · rename_i heq
    simp only [heq, Prod.mk.injEq, reduceCtorEq, false_iff, not_and]
    exact fun h => absurd h.1.symm
  · rename_i hne heq
    rw [heq]
    simp only [Option.some.injEq, iff_self_and]
    rintro ⟨⟩
    exact hne

/-- **A whole part** has a digit, and no zero in front of another digit. -/
theorem whole?_eq_some_iff : whole? s = some (ds, rest) ↔
    takeDigits s = (ds, rest) ∧ ds ≠ [] ∧ ∀ d es, ds ≠ 0 :: d :: es := by
  unfold whole?
  split
  · rename_i heq
    simp only [heq, Prod.mk.injEq, reduceCtorEq, false_iff, not_and]
    exact fun h hne => absurd h.1.symm hne
  · rename_i heq
    simp only [heq, Prod.mk.injEq, reduceCtorEq, false_iff, not_and]
    exact fun h _ hzero => absurd h.1.symm (hzero _ _)
  · rename_i hne hzero heq
    rw [heq]
    simp only [Option.some.injEq, iff_self_and]
    rintro ⟨⟩
    exact ⟨hne, hzero⟩

theorem whole?_digits (m : ℕ) (h : NoDigit rest) :
    whole? ((digits m).map Nat.digitChar ++ rest) = some (digits m, rest) := by
  refine whole?_eq_some_iff.2 ⟨takeDigits_map (digits_lt m) h, digits_ne_nil m, fun d es hdigits => ?_⟩
  have hm : m = 0 := by
    by_contra hm
    exact head?_digits hm (by rw [hdigits]; rfl)
  rw [hm, digits_of_lt (by decide)] at hdigits
  cases hdigits

theorem fraction?_of_ends (h : Ends rest) : fraction? rest = some (none, rest) := by
  unfold fraction?
  split
  · exact absurd rfl h.noPoint
  · rfl

theorem exponent?_of_ends (h : Ends rest) : exponent? rest = some (none, rest) := by
  obtain ⟨he, hE⟩ := h.noExponent
  unfold exponent?
  split
  · rename_i c rest
    have hc : ¬ (c = 'e' ∨ c = 'E') := by
      rintro (rfl | rfl)
      · exact he rfl
      · exact hE rfl
    rw [if_neg hc]
  · rfl

/-- A number behind its sign. -/
def unsigned? (negative : Bool) (s : List Char) : Option (Numeral × List Char) := do
  let (whole, s) ← whole? s
  let (fraction, s) ← fraction? s
  let (exponent, s) ← exponent? s
  some (⟨negative, whole, fraction, exponent⟩, s)

theorem read?_minus (s : List Char) : read? ('-' :: s) = unsigned? true s := rfl

theorem read?_unsigned (h : s.head? ≠ some '-') : read? s = unsigned? false s := by
  unfold read?
  split
  rename_i heq
  split at heq
  · exact absurd rfl h
  · obtain ⟨rfl, rfl⟩ := Prod.mk.inj heq
    rfl

theorem unsigned?_digits (negative : Bool) (m : ℕ) (h : Ends tail) :
    unsigned? negative ((digits m).map Nat.digitChar ++ tail) =
      some (⟨negative, digits m, none, none⟩, tail) := by
  simp only [unsigned?, Option.bind_eq_bind, Option.bind_some, whole?_digits m h.noDigit,
    fraction?_of_ends h, exponent?_of_ends h]

/-- **An integer is read** as the digits it was written in. -/
theorem read?_ofInt (i : ℤ) (h : Ends tail) : read? (ofInt i ++ tail) = some (ofInteger i, tail) := by
  rw [ofInt, ofNat_eq, ofInteger]
  by_cases hneg : i < 0
  · rw [if_pos hneg, List.cons_append, read?_minus, unsigned?_digits true _ h, decide_eq_true hneg]
  · have hhead : ((digits i.natAbs).map Nat.digitChar ++ tail).head? ≠ some '-' := by
      obtain ⟨d, ds, hcons⟩ := List.exists_cons_of_ne_nil (digits_ne_nil i.natAbs)
      have hd : d < 10 := digits_lt i.natAbs d (by simp [hcons])
      rw [hcons]
      exact fun heq => digitChar_ne hd rfl (Option.some.inj heq)
    rw [if_neg hneg, read?_unsigned hhead, unsigned?_digits false _ h, decide_eq_false hneg]

/-- Digits that come to less than `2 ^ 64` are all taken. -/
theorem gather_eq (h : extend m ds < 2 ^ 64) : gather m ds = (extend m ds, []) := by
  induction ds generalizing m with
  | nil => rfl
  | cons d ds ih =>
    have hnext : m * 10 + d < 2 ^ 64 := (le_extend (m * 10 + d) ds).trans_lt h
    rw [gather, if_pos hnext]
    exact ih h

/-- **An integer of 64 bits is the number** that its digits denote. -/
theorem number?_ofInteger (h : Fits i) : (ofInteger i).number? = some (.int i) := by
  obtain ⟨hlow, hhigh⟩ := h
  have hvalue : extend 0 (digits i.natAbs) = i.natAbs := value_digits i.natAbs
  have hroom : extend 0 (digits i.natAbs) < 2 ^ 64 := by
    rw [hvalue]
    omega
  have hgather := gather_eq hroom
  rw [hvalue] at hgather
  unfold number? ofInteger
  simp only [hgather]
  by_cases hneg : i < 0
  · have hfits : 0 < i.natAbs ∧ i.natAbs ≤ 2 ^ 63 := by omega
    have hi : -(i.natAbs : ℤ) = i := by omega
    simp only [hneg, decide_true, not_true_eq_false, ne_eq, if_false, if_pos hfits, hi]
  · have hi : (i.natAbs : ℤ) = i := by omega
    simp only [hneg, decide_false, Bool.false_eq_true, not_true_eq_false, not_false_eq_true, ne_eq,
      if_true, if_false, hi]

/-! ## What comes behind a number -/

theorem someDigits?_append (hs : someDigits? s = some (ds, rest)) (h : NoDigit tail) :
    someDigits? (s ++ tail) = some (ds, rest ++ tail) := by
  obtain ⟨htake, hne⟩ := someDigits?_eq_some_iff.1 hs
  exact someDigits?_eq_some_iff.2 ⟨by rw [takeDigits_append s h, htake], hne⟩

theorem whole?_append (hs : whole? s = some (ds, rest)) (h : NoDigit tail) :
    whole? (s ++ tail) = some (ds, rest ++ tail) := by
  obtain ⟨htake, hne⟩ := whole?_eq_some_iff.1 hs
  exact whole?_eq_some_iff.2 ⟨by rw [takeDigits_append s h, htake], hne⟩

theorem fraction?_append {f : Option (List ℕ)} (hs : fraction? s = some (f, rest)) (h : Ends tail) :
    fraction? (s ++ tail) = some (f, rest ++ tail) := by
  unfold fraction? at hs
  split at hs
  · rename_i s
    obtain ⟨⟨ds, r⟩, hds, hsome⟩ := Option.bind_eq_some_iff.1 hs
    cases hsome
    rw [List.cons_append, fraction?, someDigits?_append hds h.noDigit]
    rfl
  · rename_i hpoint
    cases hs
    cases s with
    | nil => exact fraction?_of_ends h
    | cons c s =>
      unfold fraction?
      split
      · rename_i heq
        exact absurd (congrArg (· :: s) (List.cons.inj heq).1) (hpoint s)
      · rfl

theorem exponentDigits?_append {sign : ℤ} {e : Option ℤ} (hs : exponentDigits? sign s = some (e, rest))
    (h : Ends tail) : exponentDigits? sign (s ++ tail) = some (e, rest ++ tail) := by
  obtain ⟨⟨ds, r⟩, hds, hsome⟩ := Option.bind_eq_some_iff.1 hs
  cases hsome
  rw [exponentDigits?, someDigits?_append hds h.noDigit]
  rfl

theorem exponent?_append {e : Option ℤ} (hs : exponent? s = some (e, rest)) (h : Ends tail) :
    exponent? (s ++ tail) = some (e, rest ++ tail) := by
  cases s with
  | nil =>
    cases hs
    exact exponent?_of_ends h
  | cons c s =>
    unfold exponent? at hs ⊢
    by_cases hc : c = 'e' ∨ c = 'E'
    · simp only [List.cons_append, if_pos hc] at hs ⊢
      split at hs
      · exact exponentDigits?_append hs h
      · exact exponentDigits?_append hs h
      · rename_i hplus hminus
        cases s with
        | nil => cases hs
        | cons d s =>
          split
          · rename_i heq
            exact absurd (congrArg (· :: s) (List.cons.inj heq).1) (hplus s)
          · rename_i heq
            exact absurd (congrArg (· :: s) (List.cons.inj heq).1) (hminus s)
          · exact exponentDigits?_append hs h
    · simp only [List.cons_append, if_neg hc] at hs ⊢
      cases hs
      rfl

theorem unsigned?_append {negative : Bool} (hs : unsigned? negative s = some (n, rest))
    (h : Ends tail) : unsigned? negative (s ++ tail) = some (n, rest ++ tail) := by
  obtain ⟨⟨whole, s₁⟩, hwhole, hs⟩ := Option.bind_eq_some_iff.1 hs
  obtain ⟨⟨fraction, s₂⟩, hfraction, hs⟩ := Option.bind_eq_some_iff.1 hs
  obtain ⟨⟨exponent, s₃⟩, hexponent, hs⟩ := Option.bind_eq_some_iff.1 hs
  cases hs
  simp only [unsigned?, Option.bind_eq_bind, Option.bind_some, whole?_append hwhole h.noDigit,
    fraction?_append hfraction h, exponent?_append hexponent h]

/-- **A number is read the same**, whatever comes behind it that does not go on with it. -/
theorem read?_append (hs : read? s = some (n, rest)) (h : Ends tail) :
    read? (s ++ tail) = some (n, rest ++ tail) := by
  by_cases hminus : s.head? = some '-'
  · obtain ⟨s, rfl⟩ := List.head?_eq_some_iff.1 hminus
    exact unsigned?_append hs h
  · rw [read?_unsigned hminus] at hs
    have hne : s ≠ [] := by
      rintro rfl
      cases hs
    rw [read?_unsigned (by rwa [List.head?_append_of_ne_nil s hne])]
    exact unsigned?_append hs h

end TapeReader.Json.Numeral
