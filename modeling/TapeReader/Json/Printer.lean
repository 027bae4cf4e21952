import TapeReader.Json.Basic
import TapeReader.Text.Digits

/-!
# Writing JSON text

* `compress`: without blanks.
* `pretty`: an item or a member to a line, two blanks deeper at each level.
-/

namespace TapeReader.Json

/-- A character inside a string: quotes, backslashes and control characters are escaped. -/
def escapeChar (c : Char) : List Char :=
  match c with
  | '"' => ['\\', '"']
  | '\\' => ['\\', '\\']
  | '\x08' => ['\\', 'b']
  | '\t' => ['\\', 't']
  | '\n' => ['\\', 'n']
  | '\x0c' => ['\\', 'f']
  | '\r' => ['\\', 'r']
  | c =>
    if c < ' ' then
      ['\\', 'u', '0', '0', Nat.digitChar (c.toNat / 16), Nat.digitChar (c.toNat % 16)]
    else [c]

/-- A string with its quotes. -/
def quote (s : String) : List Char := '"' :: s.toList.flatMap escapeChar ++ ['"']

/-- A number: a binary fraction in its shortest digits. -/
def numberText : Number → List Char
  | .int i => Text.ofInt i
  | .float negative magnitude =>
    let s := magnitude.positional
    let s := if s.contains '.' then s else s ++ ['.', '0']
    if negative then '-' :: s else s

mutual

def compressChars : Json → List Char
  | .null => "null".toList
  | .unreadable => "null".toList
  | .bool b => if b then "true".toList else "false".toList
  | .number n => numberText n
  | .string s => quote s
  | .array items => '[' :: compressItems items
  | .object members => '{' :: compressMembers members

/-- The items of an array and the closing bracket. -/
def compressItems : List Json → List Char
  | [] => [']']
  | [j] => compressChars j ++ [']']
  | j :: k :: rest => compressChars j ++ ',' :: compressItems (k :: rest)

/-- The members of an object and the closing brace. -/
def compressMembers : List (String × Json) → List Char
  | [] => ['}']
  | [(name, j)] => quote name ++ ':' :: compressChars j ++ ['}']
  | (name, j) :: m :: rest =>
    quote name ++ ':' :: compressChars j ++ ',' :: compressMembers (m :: rest)

end

/-- A value on one line, without blanks. -/
def compress (j : Json) : String := String.ofList j.compressChars

/-- A new line at a level. -/
def newline (level : Nat) : List Char := '\n' :: List.replicate (2 * level) ' '

mutual

def prettyChars (level : Nat) : Json → List Char
  | .null => "null".toList
  | .unreadable => "null".toList
  | .bool b => if b then "true".toList else "false".toList
  | .number n => numberText n
  | .string s => quote s
  | .array [] => ['[', ']']
  | .array (j :: rest) => '[' :: prettyItems level (j :: rest)
  | .object [] => ['{', '}']
  | .object (m :: rest) => '{' :: prettyMembers level (m :: rest)

/-- The items of an array inside a level, each on its line, and the closing bracket. -/
def prettyItems (level : Nat) : List Json → List Char
  | [] => newline level ++ [']']
  | [j] => newline (level + 1) ++ prettyChars (level + 1) j ++ newline level ++ [']']
  | j :: k :: rest =>
    newline (level + 1) ++ prettyChars (level + 1) j ++ ',' :: prettyItems level (k :: rest)

/-- The members of an object inside a level, each on its line, and the closing brace. -/
def prettyMembers (level : Nat) : List (String × Json) → List Char
  | [] => newline level ++ ['}']
  | [(name, j)] =>
    newline (level + 1) ++ quote name ++ ':' :: ' ' :: prettyChars (level + 1) j
      ++ newline level ++ ['}']
  | (name, j) :: m :: rest =>
    newline (level + 1) ++ quote name ++ ':' :: ' ' :: prettyChars (level + 1) j
      ++ ',' :: prettyMembers level (m :: rest)

end

/-- A value over several lines. -/
def pretty (j : Json) : String := String.ofList (j.prettyChars 0)

end TapeReader.Json
