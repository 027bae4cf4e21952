import TapeReader.Decimal.Json
import TapeReader.Text.Basic

/-!
# Settings

* `Setting`: a value as a settings file holds it, whatever the file's format.
* `text?`, `bool?`, `int64?`, `nat64?`, `decimal?`: what a value says where a field wants a text, a
  number or a yes and no. A value of another type is taken for what it would have been written as.
-/

namespace TapeReader

-- Powers mean the same whichever libraries are in scope.
attribute [local instance (2000)] instPowNat

/-- A value in a settings file. The names in a table are distinct. -/
inductive Setting where
  | nil
  | bool (b : Bool)
  | int (i : Int)
  | float (negative : Bool) (magnitude : Binary64)
  | infinite (negative : Bool)
  | notNumber
  | text (s : String)
  | list (items : List Setting)
  | table (entries : List (String × Setting))
deriving Repr, Inhabited

namespace Setting

/-- A value as a text; nothing, lists and tables have none. -/
def text? : Setting → Option String
  | .bool b => some (if b then "true" else "false")
  | .int i => some (Text.int i)
  | .float negative magnitude =>
    some (String.ofList (if negative then '-' :: magnitude.positional else magnitude.positional))
  | .infinite negative => some (if negative then "-inf" else "inf")
  | .notNumber => some "NaN"
  | .text s => some s
  | _ => none

/-- A word for yes or no, in letters of either case. -/
def word? (s : String) : Option Bool :=
  let word := String.ofList (Text.lowerAscii s.toList)
  if ["true", "on", "yes"].contains word then some true
  else if ["false", "off", "no"].contains word then some false
  else none

/-- A value as yes or no. Of numbers, zero is no. -/
def bool? : Setting → Option Bool
  | .bool b => some b
  | .int i => some (i ≠ 0)
  | .float _ magnitude => some (magnitude.mantissa ≠ 0)
  | .infinite _ | .notNumber => some true
  | .text "1" => some true
  | .text "0" => some false
  | .text s => word? s
  | _ => none

/-- A number without sign in digits alone. -/
def digits? (s : List Char) : Option Nat :=
  match Text.takeDigits s with
  | (d :: ds, []) => some (Text.value 10 (d :: ds))
  | _ => none

/-- An integer in digits, a sign in front of it allowed. -/
def integer? (s : List Char) : Option Int :=
  match s with
  | '-' :: rest => (digits? rest).map fun n => -(n : Int)
  | '+' :: rest => (digits? rest).map Int.ofNat
  | _ => (digits? s).map Int.ofNat

/-- The integer nearest to `i` from `low` to `high`. -/
def clamp (low high i : Int) : Int := max low (min high i)

/-- An integer that lies from `low` to `high`. -/
def within? (low high i : Int) : Option Int := if low ≤ i ∧ i ≤ high then some i else none

/-- A value as an integer from `low` to `high`. A fraction is rounded, half away from zero, and
brought into the range; any other value outside of it is refused. Where no integer is negative, no
text has a minus. -/
def integerWithin? (low high : Int) : Setting → Option Int
  | .bool b => some (if b then 1 else 0)
  | .int i => within? low high i
  | .float negative magnitude =>
    some (clamp low high (if negative then -magnitude.round else magnitude.round))
  | .infinite negative => some (if negative then low else high)
  | .notNumber => some 0
  | .text s =>
    match word? s with
    | some b => some (if b then 1 else 0)
    | none =>
      if low = 0 ∧ s.toList.head? = some '-' then none
      else (integer? s.toList).bind (within? low high)
  | _ => none

/-- A value as a signed integer of 64 bits. -/
def int64? (v : Setting) : Option Int := integerWithin? (-2 ^ (63 : Nat)) (2 ^ (63 : Nat) - 1) v

/-- A value as an integer of 64 bits without sign. -/
def nat64? (v : Setting) : Option Nat := (integerWithin? 0 (2 ^ (64 : Nat) - 1) v).map Int.toNat

/-- A value as a decimal: a fraction in its shortest digits. -/
def decimal? : Setting → Option Decimal
  | .int i => Decimal.ofInt? i
  | .float negative magnitude => Decimal.ofBinary64? negative magnitude
  | .text s => Decimal.ofText? s
  | _ => none

/-- The value under a name. -/
def find? (entries : List (String × Setting)) (name : String) : Option Setting :=
  entries.lookup name

/-- The entries with `v` under `name`: in its old place, or behind the others. -/
def put (name : String) (v : Setting) : List (String × Setting) → List (String × Setting)
  | [] => [(name, v)]
  | (other, old) :: rest =>
    if other = name then (name, v) :: rest else (other, old) :: put name v rest

/-- The declared fields of a record, in order: from a table by name, from a list by position.
Other entries and items are ignored. -/
def record? (names : List String) : Setting → Option (List (Option Setting))
  | .table entries => some (names.map (find? entries))
  | .list items =>
    some ((items.take names.length).map some
      ++ List.replicate (names.length - items.length) none)
  | _ => none

end Setting

end TapeReader
