import TapeReader.Text.Basic
import TapeReader.Text.Digits

/-!
# Tokens of YAML

`Yaml.tokens?`: the lines of a text as scalars and marks, each with its place. Scalars end with
their line. Anchors, tags and block scalars are refused.
-/

namespace TapeReader.Yaml

inductive Mark where
  | plain (s : List Char)
  | quoted (s : List Char)
  | colon
  | dash
  | comma
  | openList
  | closeList
  | openTable
  | closeTable
deriving DecidableEq, Repr

structure Token where
  line : Nat
  column : Nat
  mark : Mark
deriving DecidableEq, Repr

def isBlank (c : Char) : Bool := c = ' ' || c = '\t'

/-- Whether a text starts with a blank or is at its end. -/
def breaks (s : List Char) : Bool := s.head?.all isBlank

/-- A character that ends a plain scalar inside brackets. -/
def isBracket (c : Char) : Bool := ",[]\x7b\x7d".toList.contains c

/-- A character that no plain scalar starts with. -/
def isReserved (c : Char) : Bool := "&*!|>%@`,[]\x7b\x7d#\"'".toList.contains c

/-- Whether a colon with `rest` behind it stands between a name and its value. -/
def separates (inside : Bool) (rest : List Char) : Bool :=
  breaks rest || (inside && rest.head?.any isBracket)

/-- A plain scalar at the front of a line, and what follows it. -/
def plain (inside : Bool) : List Char → List Char × List Char
  | [] => ([], [])
  | c :: rest =>
    if (c = ':' ∧ separates inside rest) ∨ (isBlank c ∧ rest.head? = some '#')
        ∨ (inside ∧ isBracket c) then
      ([], c :: rest)
    else
      let (s, rest) := plain inside rest
      (c :: s, rest)

/-- The character of a number in hexadecimal digits. -/
def character? (digits : List Char) : Option Char := do
  let n := Text.value 16 (← digits.mapM Text.hexDigit?)
  if n.isValidChar then some (Char.ofNat n) else none

/-- The character of a short escape. -/
def escape? (c : Char) : Option Char :=
  match c with
  | '0' => some '\x00'
  | 'a' => some '\x07'
  | 'b' => some '\x08'
  | 't' => some '\t'
  | '\t' => some '\t'
  | 'n' => some '\n'
  | 'v' => some '\x0b'
  | 'f' => some '\x0c'
  | 'r' => some '\r'
  | 'e' => some '\x1b'
  | ' ' => some ' '
  | '"' => some '"'
  | '/' => some '/'
  | '\\' => some '\\'
  | 'N' => some '\u0085'
  | '_' => some '\u00a0'
  | 'L' => some '\u2028'
  | 'P' => some '\u2029'
  | _ => none

/-- A character in front of a text read later. -/
def before (c : Char) (r : Option (List Char × List Char)) : Option (List Char × List Char) :=
  r.map fun (s, rest) => (c :: s, rest)

/-- A text after a double quote, up to the next one that no backslash is in front of. -/
def double? : List Char → Option (List Char × List Char)
  | [] => none
  | '"' :: rest => some ([], rest)
  | '\\' :: 'x' :: a :: b :: rest => do before (← character? [a, b]) (double? rest)
  | '\\' :: 'u' :: a :: b :: c :: d :: rest => do
    before (← character? [a, b, c, d]) (double? rest)
  | '\\' :: 'U' :: a :: b :: c :: d :: e :: f :: g :: h :: rest => do
    before (← character? [a, b, c, d, e, f, g, h]) (double? rest)
  | '\\' :: e :: rest => do before (← escape? e) (double? rest)
  | c :: rest => if c = '\\' then none else before c (double? rest)

/-- A text after a single quote; inside, the quote is written twice. -/
def single? : List Char → Option (List Char × List Char)
  | [] => none
  | '\'' :: '\'' :: rest => before '\'' (single? rest)
  | '\'' :: rest => some ([], rest)
  | c :: rest => before c (single? rest)

/-- Where a line is read: how many brackets are open, the column, whether a blank is in front, and
whether a name that ends with its quotes or brackets is. -/
structure Place where
  depth : Nat
  column : Nat := 0
  spaced : Bool := true
  closed : Bool := false

/-- A mark of one character. -/
def single (p : Place) (c : Char) (rest : List Char) : Option (Mark × Place) :=
  let next : Place := { p with column := p.column + 1, spaced := false, closed := false }
  match c with
  | '[' => some (.openList, { next with depth := p.depth + 1 })
  | '{' => some (.openTable, { next with depth := p.depth + 1 })
  | ']' => if p.depth = 0 then none
    else some (.closeList, { next with depth := p.depth - 1, closed := true })
  | '}' => if p.depth = 0 then none
    else some (.closeTable, { next with depth := p.depth - 1, closed := true })
  | ',' => if p.depth = 0 then none else some (.comma, next)
  | '-' => if p.depth = 0 ∧ breaks rest then some (.dash, next) else none
  | ':' =>
    if separates (0 < p.depth) rest ∨ (0 < p.depth ∧ p.closed) then some (.colon, next) else none
  | _ => none

/-- A scalar at the front of a line, and what follows it. -/
def scalar? (inside : Bool) (s : List Char) : Option (Mark × List Char) :=
  match s with
  | '"' :: rest => (double? rest).map fun (s, rest) => (.quoted s, rest)
  | '\'' :: rest => (single? rest).map fun (s, rest) => (.quoted s, rest)
  | c :: rest =>
    if isReserved c ∨ ((c = '-' ∨ c = '?' ∨ c = ':') ∧ separates inside rest) then none
    else
      let (s, rest) := plain inside s
      some (.plain (s.reverse.dropWhile isBlank).reverse, rest)
  | [] => none

/-- The tokens of the rest of a line, and how many brackets are open behind it. The second argument
bounds their number. -/
def lineTokens? (line : Nat) : Nat → Place → List Char → Option (List Token × Nat)
  | _, p, [] => some ([], p.depth)
  | 0, _, _ :: _ => none
  | fuel + 1, p, c :: rest =>
    if isBlank c then
      if c = '\t' ∧ p.depth = 0 ∧ p.column = 0 ∧ ¬ (rest.all isBlank) then none
      else lineTokens? line fuel { p with column := p.column + 1, spaced := true } rest
    else if c = '#' ∧ p.spaced then some ([], p.depth)
    else match single p c rest with
      | some (mark, next) => do
        let (ts, depth) ← lineTokens? line fuel next rest
        some (⟨line, p.column, mark⟩ :: ts, depth)
      | none => do
        let (mark, after) ← scalar? (0 < p.depth) (c :: rest)
        let width := rest.length + 1 - after.length
        let closed := match mark with
          | .quoted _ => true
          | _ => false
        let (ts, depth) ← lineTokens? line fuel
          { p with column := p.column + width, spaced := false, closed } after
        some (⟨line, p.column, mark⟩ :: ts, depth)

/-- The tokens of lines, numbered from `line`, with brackets open across them. -/
def tokens? (line depth : Nat) : List (List Char) → Option (List Token)
  | [] => if depth = 0 then some [] else none
  | s :: rest => do
    let (ts, depth) ← lineTokens? line s.length { depth } s
    some (ts ++ (← tokens? (line + 1) depth rest))

end TapeReader.Yaml
