import TapeReader.Settings.Basic

/-!
# Scalars of TOML

What a bare word denotes as a value.

* `Toml.number?`: integers of 64 bits in four bases, and binary fractions.
* `Toml.moment?`: dates and times, which stay text.
* `Toml.scalar?`: the word as a value.
-/

namespace TapeReader.Toml

-- Powers mean the same whichever libraries are in scope.
attribute [local instance (2000)] instPowNat

/-- Digits with single underscores between them. -/
def grouped? (digit? : Char → Option Nat) : List Char → Option (List Nat)
  | [] => none
  | [c] => (digit? c).map ([·])
  | c :: '_' :: rest => do
    let d ← digit? c
    some (d :: (← grouped? digit? rest))
  | c :: rest => do
    let d ← digit? c
    some (d :: (← grouped? digit? rest))

/-- A text split at the first of some characters, which is left out. -/
def splitAt? (isMark : Char → Bool) (s : List Char) : List Char × Option (List Char) :=
  match s.dropWhile (!isMark ·) with
  | [] => (s, none)
  | _ :: rest => (s.takeWhile (!isMark ·), some rest)

/-- A sign in front of a text, and what follows it: whether there is one, and whether it is a
minus. -/
def sign (s : List Char) : Option Bool × List Char :=
  match s with
  | '-' :: rest => (some true, rest)
  | '+' :: rest => (some false, rest)
  | _ => (none, s)

def integer? (negative : Bool) (n : Nat) : Option Setting :=
  (Setting.within? (-2 ^ (63 : Nat)) (2 ^ (63 : Nat) - 1) (if negative then -n else n)).map .int

/-- An exponent: digits, a sign allowed in front of them. -/
def power? (s : List Char) : Option Int := do
  let (sign, s) := sign s
  let n : Int := Text.value 10 (← grouped? Text.digit? s)
  some (if sign = some true then -n else n)

/-- A number in base ten: an integer, or with decimals or an exponent a binary fraction. -/
def decimal? (negative : Bool) (s : List Char) : Option Setting := do
  let (s, power) := splitAt? (fun c => c = 'e' || c = 'E') s
  let (whole, fraction) := splitAt? (· = '.') s
  let whole ← grouped? Text.digit? whole
  if whole.head? = some 0 ∧ 1 < whole.length then none
  else if fraction.isNone ∧ power.isNone then integer? negative (Text.value 10 whole)
  else do
    let fraction ← fraction.elim (some []) (grouped? Text.digit?)
    let power ← power.elim (some 0) power?
    let magnitude ← Binary64.ofDecimal (Text.value 10 (whole ++ fraction))
      (power - fraction.length)
    some (.float negative magnitude)

/-- The digits of a base up to sixteen. -/
def baseDigit? (base : Nat) (c : Char) : Option Nat := (Text.hexDigit? c).filter (· < base)

def number? (s : List Char) : Option Setting :=
  let based (base : Nat) (s : List Char) : Option Setting := do
    integer? false (Text.value base (← grouped? (baseDigit? base) s))
  match s with
  | '0' :: 'x' :: rest => based 16 rest
  | '0' :: 'o' :: rest => based 8 rest
  | '0' :: 'b' :: rest => based 2 rest
  | _ =>
    let (sign, rest) := sign s
    let negative := sign = some true
    if rest = "inf".toList then some (.infinite negative)
    else if rest = "nan".toList then some .notNumber
    else decimal? negative rest

/-- A number of just so many digits, and what follows it. -/
def fixed? : Nat → Nat → List Char → Option (Nat × List Char)
  | 0, n, s => some (n, s)
  | places + 1, n, c :: rest => do
    let d ← Text.digit? c
    fixed? places (n * 10 + d) rest
  | _ + 1, _, [] => none

/-- A character that has to stand at the front. -/
def expect? (c : Char) (s : List Char) : Option (List Char) := Text.strip? [c] s

def daysIn (year month : Nat) : Nat :=
  if month = 2 then
    if year % 4 = 0 ∧ (year % 100 ≠ 0 ∨ year % 400 = 0) then 29 else 28
  else if month = 4 ∨ month = 6 ∨ month = 9 ∨ month = 11 then 30
  else 31

/-- A date at the front of a text, as it is written. -/
def date? (s : List Char) : Option (List Char × List Char) := do
  let (year, s) ← fixed? 4 0 s
  let (month, s) ← fixed? 2 0 (← expect? '-' s)
  let (day, s) ← fixed? 2 0 (← expect? '-' s)
  if 1 ≤ month ∧ month ≤ 12 ∧ 1 ≤ day ∧ day ≤ daysIn year month then
    some (Text.padded 4 year ++ '-' :: Text.padded 2 month ++ '-' :: Text.padded 2 day, s)
  else none

/-- The digits of a fraction of a second: nine at most, no zeros at the end. -/
def fraction? (s : List Char) : Option (List Char × List Char) :=
  match s with
  | '.' :: rest =>
    let digits := rest.takeWhile fun c => (Text.digit? c).isSome
    let kept := ((digits.take 9).reverse.dropWhile (· = '0')).reverse
    if digits.isEmpty then none
    else some (if kept.isEmpty then [] else '.' :: kept, rest.drop digits.length)
  | _ => some ([], s)

/-- A time at the front of a text, as it is written. -/
def time? (s : List Char) : Option (List Char × List Char) := do
  let (hour, s) ← fixed? 2 0 s
  let (minute, s) ← fixed? 2 0 (← expect? ':' s)
  let (second, s) ← fixed? 2 0 (← expect? ':' s)
  let (fraction, s) ← fraction? s
  if hour < 24 ∧ minute < 60 ∧ second ≤ 60 then
    some (Text.padded 2 hour ++ ':' :: Text.padded 2 minute ++ ':' :: Text.padded 2 second
      ++ fraction, s)
  else none

/-- How far a time is from Greenwich, where that is written. -/
def offset? (s : List Char) : Option (List Char) :=
  match s with
  | [] => some []
  | [c] => if c = 'Z' ∨ c = 'z' then some ['Z'] else none
  | c :: rest => do
    let (hour, rest) ← fixed? 2 0 rest
    let (minute, rest) ← fixed? 2 0 (← expect? ':' rest)
    if rest = [] ∧ (c = '+' ∨ c = '-') ∧ hour < 24 ∧ minute < 60 then
      let c := if hour = 0 ∧ minute = 0 then '+' else c
      some (c :: Text.padded 2 hour ++ ':' :: Text.padded 2 minute)
    else none

/-- A date, a time, or both with an offset. -/
def moment? (s : List Char) : Option (List Char) :=
  match date? s with
  | some (date, []) => some date
  | some (date, c :: rest) => do
    if c = 'T' ∨ c = 't' ∨ c = ' ' then
      let (time, rest) ← time? rest
      some (date ++ 'T' :: time ++ (← offset? rest))
    else none
  | none =>
    match time? s with
    | some (time, []) => some time
    | _ => none

/-- **The value of a bare word.** -/
def scalar? (s : List Char) : Option Setting :=
  if s = "true".toList then some (.bool true)
  else if s = "false".toList then some (.bool false)
  else (number? s).or ((moment? s).map fun s => .text (String.ofList s))

end TapeReader.Toml
