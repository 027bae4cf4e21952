import TapeReader.Json.Basic
import TapeReader.Text.Digits

/-!
# Numbers in JSON text

* `Numeral.read?`: the grammar of a number.
* `Numeral.number?`: the number it denotes. Integers of 64 bits are exact. Any other number is a
  binary fraction: as many digits as 64 bits hold, scaled once by a power of ten.
-/

namespace TapeReader.Json

-- Powers mean the same whichever libraries are in scope.
attribute [local instance (2000)] instPowNat

/-- A number as it is written. -/
structure Numeral where
  negative : Bool
  whole : List Nat
  fraction : Option (List Nat)
  exponent : Option Int

namespace Numeral

/-- Digits, at least one. -/
def someDigits? (s : List Char) : Option (List Nat × List Char) :=
  match Text.takeDigits s with
  | ([], _) => none
  | (ds, rest) => some (ds, rest)

/-- The part before the point: a zero alone, or digits that do not start with one. -/
def whole? (s : List Char) : Option (List Nat × List Char) :=
  match Text.takeDigits s with
  | ([], _) => none
  | (0 :: _ :: _, _) => none
  | (ds, rest) => some (ds, rest)

def fraction? (s : List Char) : Option (Option (List Nat) × List Char) :=
  match s with
  | '.' :: rest => do
    let (ds, rest) ← someDigits? rest
    some (some ds, rest)
  | _ => some (none, s)

def exponentDigits? (sign : Int) (s : List Char) : Option (Option Int × List Char) := do
  let (ds, rest) ← someDigits? s
  some (some (sign * (Text.value 10 ds : Int)), rest)

def exponent? (s : List Char) : Option (Option Int × List Char) :=
  match s with
  | c :: rest =>
    if c = 'e' ∨ c = 'E' then
      match rest with
      | '+' :: rest => exponentDigits? 1 rest
      | '-' :: rest => exponentDigits? (-1) rest
      | _ => exponentDigits? 1 rest
    else some (none, s)
  | [] => some (none, s)

/-- The number at the front of a text, and what follows it. -/
def read? (s : List Char) : Option (Numeral × List Char) := do
  let (negative, s) := match s with
    | '-' :: rest => (true, rest)
    | _ => (false, s)
  let (whole, s) ← whole? s
  let (fraction, s) ← fraction? s
  let (exponent, s) ← exponent? s
  some (⟨negative, whole, fraction, exponent⟩, s)

/-- Digits taken into `m` while it stays below `2 ^ 64`, and the digits left over. -/
def gather (m : Nat) : List Nat → Nat × List Nat
  | [] => (m, [])
  | d :: ds => if m * 10 + d < 2 ^ (64 : Nat) then gather (m * 10 + d) ds else (m, d :: ds)

/-- The binary fraction `m * 10 ^ k`: one multiplication or one division by the power, two where
it is too small for one. None when it is too large. -/
def scaled? (m : Nat) (k : Int) : Option Binary64 := do
  let f ← Binary64.ofNat m
  if f.mantissa = 0 then some f
  else if 0 ≤ k then
    if 308 < k then none else f.mul (← Binary64.powTen k.toNat)
  else
    let k := (-k).toNat
    if k ≤ 308 then f.div (← Binary64.powTen k)
    else if k ≤ 616 then (← f.div (← Binary64.powTen 308)).div (← Binary64.powTen (k - 308))
    else some .zero

/-- The number a numeral denotes; none when it is too large. -/
def number? (n : Numeral) : Option Number := do
  let (m, left) := gather 0 n.whole
  let float (m : Nat) (k : Int) : Option Number := do
    some (.float n.negative (← scaled? m k))
  match n.fraction, n.exponent with
  | none, none =>
    if left ≠ [] then float m left.length
    else if ¬ n.negative then some (.int m)
    else if 0 < m ∧ m ≤ 2 ^ (63 : Nat) then some (.int (-m))
    else float m 0
  | fraction, exponent =>
    let decimals := fraction.getD []
    let (m, cut) := gather m decimals
    float m (left.length - (decimals.length - cut.length) + exponent.getD 0)

end Numeral

end TapeReader.Json
