import TapeReader.Decimal.Text
import TapeReader.Json.Basic

/-!
# Decimals in JSON

* `toJson`: a decimal is written as a string, so that its scale is kept.
* `ofJson?`: a decimal is read from a string, from an integer, or from a binary fraction by its
  shortest digits.
-/

namespace TapeReader.Decimal

def toJson (d : Decimal) : Json := .string d.text

/-- The decimal in the shortest digits of a binary fraction. -/
def ofBinary64? (negative : Bool) (magnitude : Binary64) : Option Decimal :=
  ofPlain? (if negative then '-' :: magnitude.positional else magnitude.positional)

def ofJson? : Json → Option Decimal
  | .string s => ofText? s
  | .number (.int i) => ofInt? i
  | .number (.float negative magnitude) => ofBinary64? negative magnitude
  | _ => none

end TapeReader.Decimal
