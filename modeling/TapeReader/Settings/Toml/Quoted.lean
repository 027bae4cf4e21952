import TapeReader.Text.Digits

/-!
# Quoted texts of TOML

* `Toml.basic?`, `Toml.literal?`: a text on one line, with and without escapes.
* `Toml.longBasic?`, `Toml.longLiteral?`: the same over several lines.

Each reads from behind the opening quotes to the closing ones, and gives what follows those.
-/

namespace TapeReader.Toml

/-- A character that stands in no text. -/
def isControl (c : Char) : Bool := (c < ' ' && c ≠ '\t') || c = '\x7f'

/-- The character of a short escape. -/
def escape? (c : Char) : Option Char :=
  match c with
  | 'b' => some '\x08'
  | 't' => some '\t'
  | 'n' => some '\n'
  | 'f' => some '\x0c'
  | 'r' => some '\r'
  | '"' => some '"'
  | '\\' => some '\\'
  | _ => none

/-- The character of a number in hexadecimal digits. -/
def character? (digits : List Char) : Option Char := do
  let n := Text.value 16 (← digits.mapM Text.hexDigit?)
  if n.isValidChar then some (Char.ofNat n) else none

/-- A character in front of a text read later. -/
def before (c : Char) (r : Option (List Char × List Char)) : Option (List Char × List Char) :=
  r.map fun (s, rest) => (c :: s, rest)

def basic? : List Char → Option (List Char × List Char)
  | [] => none
  | '"' :: rest => some ([], rest)
  | '\\' :: 'u' :: a :: b :: c :: d :: rest => do
    before (← character? [a, b, c, d]) (basic? rest)
  | '\\' :: 'U' :: a :: b :: c :: d :: e :: f :: g :: h :: rest => do
    before (← character? [a, b, c, d, e, f, g, h]) (basic? rest)
  | '\\' :: e :: rest => do before (← escape? e) (basic? rest)
  | c :: rest => if isControl c ∨ c = '\\' then none else before c (basic? rest)

def literal? : List Char → Option (List Char × List Char)
  | [] => none
  | '\'' :: rest => some ([], rest)
  | c :: rest => if isControl c then none else before c (literal? rest)

def isSpace (c : Char) : Bool := c = ' ' || c = '\t' || c = '\n'

/-- Whether nothing but blanks is left on the line. -/
def lineBreaks (s : List Char) : Bool :=
  (s.dropWhile fun c => c = ' ' || c = '\t').head? = some '\n'

/-- A text of several lines. A backslash at the end of a line takes away the white space that
follows; `skipping` says that this goes on. One or two quotes may stand before the closing ones. -/
def longBasic? (skipping : Bool) : List Char → Option (List Char × List Char)
  | [] => none
  | '"' :: '"' :: '"' :: '"' :: '"' :: rest => some (['"', '"'], rest)
  | '"' :: '"' :: '"' :: '"' :: rest => some (['"'], rest)
  | '"' :: '"' :: '"' :: rest => some ([], rest)
  | '\\' :: 'u' :: a :: b :: c :: d :: rest => do
    before (← character? [a, b, c, d]) (longBasic? false rest)
  | '\\' :: 'U' :: a :: b :: c :: d :: e :: f :: g :: h :: rest => do
    before (← character? [a, b, c, d, e, f, g, h]) (longBasic? false rest)
  | '\\' :: e :: rest =>
    if lineBreaks (e :: rest) then longBasic? true rest
    else do before (← escape? e) (longBasic? false rest)
  | c :: rest =>
    if skipping ∧ isSpace c then longBasic? true rest
    else if c ≠ '\n' ∧ (isControl c ∨ c = '\\') then none
    else before c (longBasic? false rest)

def longLiteral? : List Char → Option (List Char × List Char)
  | [] => none
  | '\'' :: '\'' :: '\'' :: '\'' :: '\'' :: rest => some (['\'', '\''], rest)
  | '\'' :: '\'' :: '\'' :: '\'' :: rest => some (['\''], rest)
  | '\'' :: '\'' :: '\'' :: rest => some ([], rest)
  | c :: rest => if c ≠ '\n' ∧ isControl c then none else before c (longLiteral? rest)

/-- A text without the line break it starts with. -/
def dropBreak (s : List Char) : List Char :=
  match s with
  | '\n' :: rest => rest
  | _ => s

end TapeReader.Toml
