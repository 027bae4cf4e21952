/-!
# Text

* `isBlank`, `trim`: the white space of Unicode.
* `contains`: a text inside a text.
* `lowerAscii`: the case map that touches ASCII letters only.
-/

namespace TapeReader.Text

/-- The characters with the Unicode property `White_Space`. -/
def isBlank (c : Char) : Bool :=
  let n := c.toNat
  (9 ≤ n && n ≤ 13) || n == 0x20 || n == 0x85 || n == 0xA0 || n == 0x1680
    || (0x2000 ≤ n && n ≤ 0x200A) || n == 0x2028 || n == 0x2029 || n == 0x202F
    || n == 0x205F || n == 0x3000

/-- A text without the white space in front of it. -/
def trimLeft (s : List Char) : List Char := s.dropWhile isBlank

/-- A text without the white space around it. -/
def trim (s : List Char) : List Char := (trimLeft (trimLeft s).reverse).reverse

/-- What follows `front` in `s`, where `s` starts with it. -/
def strip? (front s : List Char) : Option (List Char) :=
  if front.isPrefixOf s then some (s.drop front.length) else none

/-- Whether `part` stands somewhere in `s`. -/
def contains (part : List Char) : List Char → Bool
  | [] => part.isEmpty
  | c :: rest => part.isPrefixOf (c :: rest) || contains part rest

/-- A text with its ASCII capitals made small. -/
def lowerAscii (s : List Char) : List Char :=
  s.map fun c => if 'A' ≤ c ∧ c ≤ 'Z' then Char.ofNat (c.toNat + 32) else c

/-- The parts of a text between the places where a character stands. -/
def splitOn {α : Type} [DecidableEq α] (sep : α) : List α → List (List α)
  | [] => [[]]
  | c :: rest =>
    if c = sep then [] :: splitOn sep rest
    else match splitOn sep rest with
      | [] => [[c]]
      | part :: parts => (c :: part) :: parts

end TapeReader.Text
