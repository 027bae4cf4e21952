import TapeReader.Text.Basic
import TapeReader.Text.Digits

/-!
# Times of day

* `TimeOfDay`: a second of the day and its fraction; a leap second is a 59th second that goes on.
* `ofMillis`: the time of day of an instant.
* `text`, `ofText?`: `HH:MM:SS` with a fraction, written and read.
-/

namespace TapeReader

-- Powers mean the same whichever libraries are in scope.
attribute [local instance (2000)] instPowNat

/-- A time of day. In a leap second `nano` passes `10 ^ 9`. -/
structure TimeOfDay where
  second : Nat
  nano : Nat
  second_lt : second < 86400
  nano_lt : nano < 10 ^ (9 : Nat) ∨ (second % 60 = 59 ∧ nano < 2 * 10 ^ (9 : Nat))
deriving DecidableEq, Repr

namespace TimeOfDay

/-- Order by second, then by fraction. -/
protected def lt (a b : TimeOfDay) : Prop :=
  a.second < b.second ∨ (a.second = b.second ∧ a.nano < b.nano)

instance : LT TimeOfDay := ⟨TimeOfDay.lt⟩

instance (a b : TimeOfDay) : Decidable (a < b) :=
  inferInstanceAs (Decidable (_ ∨ _))

/-- The time of day of an instant, in milliseconds since midnight of some day. -/
def ofMillis (instant : Int) : TimeOfDay where
  second := (instant / 1000 % 86400).toNat
  nano := (instant % 1000).toNat * 10 ^ (6 : Nat)
  second_lt := by omega
  nano_lt := by omega

/-- The time of day of these parts. The second 60 is a leap second. -/
def ofParts? (hour minute second nano : Nat) : Option TimeOfDay :=
  if h : hour < 24 ∧ minute < 60 ∧ second ≤ 60 ∧ nano < 10 ^ (9 : Nat) then
    if hs : second = 60 then
      some ⟨hour * 3600 + minute * 60 + 59, 10 ^ (9 : Nat) + nano, by omega, by omega⟩
    else
      some ⟨hour * 3600 + minute * 60 + second, nano, by omega, by omega⟩
  else none

/-- The fraction of a second, in as many groups of three digits as it needs. -/
def fraction (nano : Nat) : List Char :=
  if nano = 0 then []
  else if nano % 10 ^ (6 : Nat) = 0 then '.' :: Text.padded 3 (nano / 10 ^ (6 : Nat))
  else if nano % 10 ^ (3 : Nat) = 0 then '.' :: Text.padded 6 (nano / 10 ^ (3 : Nat))
  else '.' :: Text.padded 9 nano

def chars (t : TimeOfDay) : List Char :=
  let leap := t.nano / 10 ^ (9 : Nat)
  Text.padded 2 (t.second / 3600) ++ ':' :: Text.padded 2 (t.second / 60 % 60)
    ++ ':' :: Text.padded 2 (t.second % 60 + leap) ++ fraction (t.nano % 10 ^ (9 : Nat))

def text (t : TimeOfDay) : String := String.ofList t.chars

/-- A number of one or two digits, white space in front of it allowed. -/
def twoDigits? (s : List Char) : Option (Nat × List Char) :=
  match Text.trimLeft s with
  | c :: rest => do
    let a ← Text.digit? c
    match rest with
    | d :: rest' =>
      match Text.digit? d with
      | some b => some (a * 10 + b, rest')
      | none => some (a, rest)
    | [] => some (a, [])
  | [] => none

/-- What follows a colon, white space in front of it allowed. -/
def colon? (s : List Char) : Option (List Char) :=
  match Text.trimLeft s with
  | ':' :: rest => some rest
  | _ => none

/-- The nanoseconds in the digits after a point; digits beyond the ninth are dropped. -/
def nanos? (s : List Char) : Option (Nat × List Char) :=
  match Text.takeDigits s with
  | ([], _) => none
  | (ds, rest) =>
    let kept := ds.take 9
    some (Text.value 10 kept * 10 ^ (9 - kept.length), rest)

/-- The seconds and their fraction after the minute; none where no seconds are written. -/
def seconds? (s : List Char) : Option (Nat × Nat × List Char) := do
  let rest ← colon? s
  let (second, rest) ← twoDigits? rest
  match rest with
  | '.' :: rest =>
    let (nano, rest) ← nanos? rest
    some (second, nano, rest)
  | _ => some (second, 0, rest)

/-- A time of day: `H:M`, `H:M:S` or `H:M:S.f`, white space around the parts allowed. -/
def ofChars? (s : List Char) : Option TimeOfDay := do
  let (hour, rest) ← twoDigits? s
  let (minute, rest) ← twoDigits? (← colon? rest)
  let (second, nano, rest) := (seconds? rest).getD (0, 0, rest)
  if (Text.trimLeft rest).isEmpty then ofParts? hour minute second nano else none

def ofText? (s : String) : Option TimeOfDay := ofChars? s.toList

end TimeOfDay

end TapeReader
