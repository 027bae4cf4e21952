import TapeReader.Decimal.Basic
import TapeReader.Text.Digits

/-!
# The text of decimals

* `text`: every decimal written, the scale kept.
* `ofPlain?`: sign, digits and a point. Decimals without room are cut and rounded.
* `ofText?`: the same, or with a decimal exponent.
-/

namespace TapeReader.Decimal

-- Powers mean the same whichever libraries are in scope.
attribute [local instance (2000)] instPowNat

/-- A decimal with all its decimals written. -/
def chars (d : Decimal) : List Char :=
  let ds := Text.padded (d.scale + 1) d.coefficient.natAbs
  let whole := ds.take (ds.length - d.scale)
  let fraction := ds.drop (ds.length - d.scale)
  (if d.coefficient < 0 then ['-'] else []) ++ whole
    ++ (if d.scale = 0 then [] else '.' :: fraction)

def text (d : Decimal) : String := String.ofList d.chars

/-- What is kept of a coefficient when the next digit has no room: a digit from 5 up rounds it
away from zero, giving up one more decimal if the rounded coefficient has no room either. -/
def cut (coefficient scale digit : Nat) : Option (Nat × Nat) :=
  if digit < 5 then some (coefficient, scale)
  else if coefficient + 1 ≤ maxCoefficient then some (coefficient + 1, scale)
  else if scale = 0 then none
  else some ((coefficient + 5) / 10, scale - 1)

/-- Reads digits with at most one point and `_` between digits. What follows a decimal without
room is not looked at. -/
def scan (started point : Bool) (coefficient scale : Nat) :
    List Char → Option (Nat × Nat)
  | [] => if started then some (coefficient, scale) else none
  | c :: rest =>
    match Text.digit? c with
    | some d =>
      let next := coefficient * 10 + d
      if point then
        if scale = maxScale ∨ maxCoefficient < next then cut coefficient scale d
        else scan true true next (scale + 1) rest
      else if maxCoefficient < next then none
      else scan true false next scale rest
    | none =>
      if point ∧ scale = maxScale then
        if c = '_' ∨ c = '.' then some (coefficient, scale) else none
      else if c = '.' ∧ ¬ point then scan started true coefficient scale rest
      else if c = '_' ∧ started then scan started point coefficient scale rest
      else none

/-- A decimal without exponent: one sign, digits, a point. -/
def ofPlain? (s : List Char) : Option Decimal :=
  match s with
  | '-' :: rest => do
    let (coefficient, scale) ← scan false false 0 0 rest
    ofParts? (-coefficient) scale
  | '+' :: rest => do
    let (coefficient, scale) ← scan false false 0 0 rest
    ofParts? coefficient scale
  | _ => do
    let (coefficient, scale) ← scan false false 0 0 s
    ofParts? coefficient scale

/-- An exponent's digits, one plus in front allowed. -/
def exponent? (s : List Char) : Option Nat :=
  let ds := match s with
    | '+' :: rest => rest
    | _ => s
  match Text.takeDigits ds with
  | (d :: ds, []) => some (Text.value 10 (d :: ds))
  | _ => none

/-- The decimal moved by a power of ten that is not negative: decimals become digits of the whole
part, and beyond that zeros are added. -/
def raise? (d : Decimal) (k : Nat) : Option Decimal :=
  if k ≤ d.scale then ofParts? d.coefficient (d.scale - k)
  else if k ≤ maxScale then ofParts? (d.coefficient * 10 ^ (k - d.scale)) 0
  else none

/-- A decimal with an exponent, `<decimal>e<integer>`. -/
def ofScientific? (s : List Char) : Option Decimal :=
  let isMark (c : Char) : Bool := c = 'e' || c = 'E'
  match s.dropWhile (!isMark ·) with
  | [] => none
  | _ :: power => do
    let d ← ofPlain? (s.takeWhile (!isMark ·))
    match power with
    | '-' :: digits =>
      let k ← exponent? digits
      ofParts? d.coefficient (d.scale + k)
    | digits =>
      let k ← exponent? digits
      raise? d k

/-- A decimal as a text gives it. -/
def ofText? (s : String) : Option Decimal :=
  (ofPlain? s.toList).or (ofScientific? s.toList)

end TapeReader.Decimal
