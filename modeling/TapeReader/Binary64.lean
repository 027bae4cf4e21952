import TapeReader.Text.Digits

/-!
# Binary floating point

The nonnegative finite numbers `m * 2 ^ e` of the 64-bit binary format, in exact arithmetic.

* `ofRatio`, `ofDecimal`: the nearest such number to a quotient or a decimal, a tie going to the
  even one.
* `shortest`: the fewest decimal digits that round back to a number.
* `positional`: these digits written without an exponent.
-/

namespace TapeReader

-- Powers mean the same whichever libraries are in scope.
attribute [local instance (2000)] instPowNat

/-- The number `mantissa * 2 ^ exponent`. -/
structure Binary64 where
  mantissa : Nat
  exponent : Int
deriving DecidableEq, Repr

namespace Binary64

def zero : Binary64 := ⟨0, 0⟩

/-- The least exponent of a number: below it digits are lost. -/
def minExponent : Int := -1074

/-- The greatest exponent of a 53-bit mantissa. -/
def maxExponent : Int := 971

/-- The integer nearest to `n / d`, a tie going to the even one. -/
def roundDiv (n d : Nat) : Nat :=
  let q := n / d
  let r := n % d
  if 2 * r < d then q
  else if d < 2 * r then q + 1
  else q + q % 2

/-- The numerator of the value. -/
def num (x : Binary64) : Nat := x.mantissa * 2 ^ x.exponent.toNat

/-- The denominator of the value. -/
def den (x : Binary64) : Nat := 2 ^ (-x.exponent).toNat

/-- Whether `2 ^ 52 * 2 ^ e ≤ n / d`. -/
def fills (n d : Nat) (e : Int) : Bool :=
  2 ^ (52 : Nat) * 2 ^ e.toNat * d ≤ n * 2 ^ (-e).toNat

/-- The nearest number to `n / d`; none when that is beyond the largest. -/
def ofRatio (n d : Nat) : Option Binary64 :=
  if n = 0 then some zero
  else
    let guess : Int := (n.log2 : Int) - (d.log2 : Int) - 52
    let e := max minExponent (if fills n d guess then guess else guess - 1)
    let m := roundDiv (n * 2 ^ (-e).toNat) (d * 2 ^ e.toNat)
    let (m, e) := if m = 2 ^ (53 : Nat) then (2 ^ (52 : Nat), e + 1) else (m, e)
    if maxExponent < e then none
    else if m = 0 then some zero
    else some ⟨m, e⟩

/-- The nearest number to an integer. -/
def ofNat (n : Nat) : Option Binary64 := ofRatio n 1

/-- The rounded product. -/
def mul (x y : Binary64) : Option Binary64 := ofRatio (x.num * y.num) (x.den * y.den)

/-- The rounded quotient, of a divisor that is not zero. -/
def div (x y : Binary64) : Option Binary64 := ofRatio (x.num * y.den) (x.den * y.num)

/-- The number nearest to a power of ten. -/
def powTen (k : Nat) : Option Binary64 := ofRatio (10 ^ k) 1

/-- The nearest number to `n * 10 ^ k`; none when that is beyond the largest. Powers that leave
the range whatever the other digits are settled at once. -/
def ofDecimal (n : Nat) (k : Int) : Option Binary64 :=
  let places : Int := k + (Text.ofNat n).length
  if n = 0 ∨ places < -330 then some zero
  else if 330 < places then none
  else ofRatio (n * 10 ^ k.toNat) (10 ^ (-k).toNat)

/-- The integer nearest to the value, a half going up. -/
def round (x : Binary64) : Nat := (2 * x.num + x.den) / (2 * x.den)

/-- Twice the reals that round to `x`: from `low / den` to `high / den`, the ends included
when the mantissa is even. The gap below a power of two is half as wide. -/
def interval (x : Binary64) : Nat × Nat × Nat :=
  let unit := 2 ^ x.exponent.toNat
  let below := if x.mantissa = 2 ^ (52 : Nat) ∧ minExponent < x.exponent then 1 else 2
  (4 * x.num - below * unit, 4 * x.num + 2 * unit, 4 * x.den)

def inside (x : Binary64) (n d : Nat) : Bool :=
  let (low, high, den) := x.interval
  if x.mantissa % 2 = 0 then low * d ≤ n * den && n * den ≤ high * d
  else low * d < n * den && n * den < high * d

/-- The point of the grid of the multiples of `10 ^ k` that rounds to `x` and is nearest to it,
the upper one of two equally near. -/
def onGrid (x : Binary64) (k : Int) : Option Nat :=
  let up := 10 ^ k.toNat
  let down := 10 ^ (-k).toNat
  let q := x.num * down / (x.den * up)
  let r := x.num * down % (x.den * up)
  let lower := x.inside (q * up) down
  let upper := x.inside ((q + 1) * up) down
  match lower, upper with
  | true, true => some (if 2 * r < x.den * up then q else q + 1)
  | true, false => some q
  | false, true => some (q + 1)
  | false, false => none

/-- The exponent of the first decimal digit, or one less. -/
def magnitude (x : Binary64) : Int :=
  let whole := x.num / x.den
  if 0 < whole then (Text.ofNat whole).length - 1
  else -((Text.ofNat (x.den / x.num)).length : Int)

/-- The coarsest grid with a hit, from `10 ^ k` down. -/
def search (x : Binary64) : Nat → Int → Nat × Int
  | 0, k => ((x.onGrid k).getD 0, k)
  | fuel + 1, k =>
    match x.onGrid k with
    | some n => if n = 0 then search x fuel (k - 1) else (n, k)
    | none => search x fuel (k - 1)

/-- **The shortest decimal** `n * 10 ^ k` that rounds to `x`, of several the nearest. Seventeen
digits always suffice. -/
def shortest (x : Binary64) : Nat × Int :=
  if x.mantissa = 0 then (0, 0) else x.search 18 (x.magnitude + 1)

/-- The shortest decimal written in full, without an exponent. -/
def positional (x : Binary64) : List Char :=
  let (n, k) := x.shortest
  if 0 ≤ k then
    if n = 0 then ['0'] else Text.ofNat n ++ List.replicate k.toNat '0'
  else
    let places := (-k).toNat
    let ds := Text.padded (places + 1) n
    ds.take (ds.length - places) ++ '.' :: ds.drop (ds.length - places)

end Binary64

end TapeReader
