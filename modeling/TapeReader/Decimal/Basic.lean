/-!
# Decimals

A price or a ratio: an integer coefficient of at most 96 bits over a power of ten, the number of
decimals kept. `25.390` and `25.39` are two decimals of one value.

* Order is by value.
* `mul?`, `add?`: exact results, decimals dropped where the coefficient has no room for them.
-/

namespace TapeReader

-- Powers mean the same whichever libraries are in scope.
attribute [local instance (2000)] instPowNat

/-- The number `coefficient / 10 ^ scale`. -/
structure Decimal where
  coefficient : Int
  scale : Nat
  coefficient_le : coefficient.natAbs ≤ 2 ^ (96 : Nat) - 1 := by decide
  scale_le : scale ≤ 28 := by decide
deriving DecidableEq, Repr

namespace Decimal

/-- The greatest coefficient. -/
def maxCoefficient : Nat := 2 ^ (96 : Nat) - 1

/-- The greatest number of decimals. -/
def maxScale : Nat := 28

/-- The decimal of these parts, where they are in range. -/
def ofParts? (coefficient : Int) (scale : Nat) : Option Decimal :=
  if h : coefficient.natAbs ≤ 2 ^ (96 : Nat) - 1 ∧ scale ≤ 28 then
    some ⟨coefficient, scale, h.1, h.2⟩
  else none

theorem natAbs_zero_le : (0 : Int).natAbs ≤ 2 ^ (96 : Nat) - 1 := by decide

theorem zero_le_maxScale : 0 ≤ 28 := by decide

def zero : Decimal := ⟨0, 0, natAbs_zero_le, zero_le_maxScale⟩

/-- An integer without decimals. -/
def ofInt? (i : Int) : Option Decimal := ofParts? i 0

/-- Order by value. -/
protected def lt (a b : Decimal) : Prop :=
  a.coefficient * 10 ^ b.scale < b.coefficient * 10 ^ a.scale

instance : LT Decimal := ⟨Decimal.lt⟩

instance (a b : Decimal) : Decidable (a < b) :=
  inferInstanceAs (Decidable (_ < (_ : Int)))

/-- Equality by value. -/
def sameValue (a b : Decimal) : Bool :=
  a.coefficient * 10 ^ b.scale == b.coefficient * 10 ^ a.scale

/-- The greater of two, the first of two equal ones. -/
def max (a b : Decimal) : Decimal := if a < b then b else a

/-- The lesser of two, the first of two equal ones. -/
def min (a b : Decimal) : Decimal := if b < a then b else a

/-- The integer nearest to `i / 10 ^ k`, a tie going to the even one. -/
def dropDecimals (i : Int) (k : Nat) : Int :=
  let d : Int := 10 ^ k
  let q := i / d
  let r := i % d
  if 2 * r < d then q
  else if d < 2 * r then q + 1
  else q + q % 2

/-- The first of these scales, going down, at which the number `i / 10 ^ scale` has a
coefficient in range. -/
def fit (i : Int) (scale : Nat) : Nat → Option Decimal
  | 0 => ofParts? (dropDecimals i scale) 0
  | target + 1 =>
    (ofParts? (dropDecimals i (scale - (target + 1))) (target + 1)).or (fit i scale target)

/-- The decimal nearest to `i / 10 ^ scale` with as many decimals as there is room for. None
when not even the whole part has room. -/
def round? (i : Int) (scale : Nat) : Option Decimal := fit i scale (Nat.min scale maxScale)

/-- The product. A zero operand gives the zero without decimals. -/
def mul? (a b : Decimal) : Option Decimal :=
  if a.coefficient = 0 ∨ b.coefficient = 0 then some zero
  else round? (a.coefficient * b.coefficient) (a.scale + b.scale)

/-- The sum, with the decimals of the operand that has more of them. -/
def add? (a b : Decimal) : Option Decimal :=
  let scale := Nat.max a.scale b.scale
  round? (a.coefficient * 10 ^ (scale - a.scale) + b.coefficient * 10 ^ (scale - b.scale)) scale

end Decimal

end TapeReader
