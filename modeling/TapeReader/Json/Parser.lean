import TapeReader.Json.Numeral

/-!
# Reading JSON text

* `parse?`: the value of a text by the grammar alone, of any depth.
* `ofText?`: the value of a text all of whose parts denote something, nested at most 127 deep,
  with each name once in an object.
-/

namespace TapeReader.Json

/-- The white space of JSON. -/
def isBlank (c : Char) : Bool := c = ' ' || c = '\n' || c = '\t' || c = '\r'

def skipBlank (s : List Char) : List Char := s.dropWhile isBlank

/-- A part of a string as it is written: a character, or the number in a `\u` escape. -/
inductive Piece where
  | char (c : Char)
  | unit (u : Nat)

/-- The character of a short escape. -/
def escape? (c : Char) : Option Char :=
  match c with
  | '"' => some '"'
  | '\\' => some '\\'
  | '/' => some '/'
  | 'b' => some '\x08'
  | 'f' => some '\x0c'
  | 'n' => some '\n'
  | 'r' => some '\r'
  | 't' => some '\t'
  | _ => none

/-- The number in four hexadecimal digits. -/
def unit? (a b c d : Char) : Option Nat := do
  some (Text.value 16 [← Text.hexDigit? a, ← Text.hexDigit? b, ← Text.hexDigit? c,
    ← Text.hexDigit? d])

/-- The pieces of a string up to its closing quote, and what follows that. -/
def pieces? : List Char → Option (List Piece × List Char)
  | [] => none
  | '"' :: rest => some ([], rest)
  | '\\' :: 'u' :: a :: b :: c :: d :: rest => do
    let u ← unit? a b c d
    let (ps, rest) ← pieces? rest
    some (.unit u :: ps, rest)
  | '\\' :: e :: rest => do
    let c ← escape? e
    let (ps, rest) ← pieces? rest
    some (.char c :: ps, rest)
  | c :: rest =>
    if c < ' ' ∨ c = '\\' then none
    else do
      let (ps, rest) ← pieces? rest
      some (.char c :: ps, rest)

/-- The first half of a surrogate pair. -/
def isLead (u : Nat) : Bool := 0xD800 ≤ u && u < 0xDC00

/-- The second half of a surrogate pair. -/
def isTrail (u : Nat) : Bool := 0xDC00 ≤ u && u < 0xE000

/-- The characters that pieces denote; none when half a surrogate pair stands alone. -/
def join? : List Piece → Option (List Char)
  | [] => some []
  | .char c :: ps => (join? ps).map (c :: ·)
  | .unit u :: .unit v :: ps =>
    if isLead u then
      if isTrail v then
        (join? ps).map (Char.ofNat (0x10000 + (u - 0xD800) * 0x400 + (v - 0xDC00)) :: ·)
      else none
    else if isTrail u then none
    else (join? (.unit v :: ps)).map (Char.ofNat u :: ·)
  | .unit u :: ps =>
    if isLead u || isTrail u then none else (join? ps).map (Char.ofNat u :: ·)

/-- The string after its opening quote, none inside when it denotes none. -/
def stringBody? (s : List Char) : Option (Option String × List Char) := do
  let (ps, rest) ← pieces? s
  some ((join? ps).map String.ofList, rest)

/-- An object, unless a member's name denotes nothing. -/
def ofMembers (members : List (Option String × Json)) : Json :=
  match members.mapM fun (name, j) => name.map (·, j) with
  | some members => .object members
  | none => .unreadable

mutual

/-- A value at the front of a text. The first argument bounds the nesting and the length. -/
def value? : Nat → List Char → Option (Json × List Char)
  | 0, _ => none
  | fuel + 1, s =>
    match skipBlank s with
    | '{' :: rest =>
      match skipBlank rest with
      | '}' :: rest => some (.object [], rest)
      | rest => do
        let (members, rest) ← members? fuel rest
        some (ofMembers members, rest)
    | '[' :: rest =>
      match skipBlank rest with
      | ']' :: rest => some (.array [], rest)
      | rest => do
        let (items, rest) ← items? fuel rest
        some (.array items, rest)
    | '"' :: rest => do
      let (s, rest) ← stringBody? rest
      some (s.elim .unreadable .string, rest)
    | 'n' :: 'u' :: 'l' :: 'l' :: rest => some (.null, rest)
    | 't' :: 'r' :: 'u' :: 'e' :: rest => some (.bool true, rest)
    | 'f' :: 'a' :: 'l' :: 's' :: 'e' :: rest => some (.bool false, rest)
    | s => do
      let (n, rest) ← Numeral.read? s
      some (n.number?.elim .unreadable .number, rest)

/-- The items of an array, at least one, up to the closing bracket. -/
def items? : Nat → List Char → Option (List Json × List Char)
  | 0, _ => none
  | fuel + 1, s => do
    let (j, rest) ← value? fuel s
    match skipBlank rest with
    | ',' :: rest => do
      let (items, rest) ← items? fuel rest
      some (j :: items, rest)
    | ']' :: rest => some ([j], rest)
    | _ => none

/-- The members of an object, at least one, up to the closing brace. -/
def members? : Nat → List Char → Option (List (Option String × Json) × List Char)
  | 0, _ => none
  | fuel + 1, s =>
    match skipBlank s with
    | '"' :: rest => do
      let (name, rest) ← stringBody? rest
      match skipBlank rest with
      | ':' :: rest => do
        let (j, rest) ← value? fuel rest
        match skipBlank rest with
        | ',' :: rest => do
          let (members, rest) ← members? fuel rest
          some ((name, j) :: members, rest)
        | '}' :: rest => some ([(name, j)], rest)
        | _ => none
      | _ => none
    | _ => none

end

/-- The value of a text by the grammar, blanks around it allowed. -/
def parse? (text : String) : Option Json := do
  let s := text.toList
  let (j, rest) ← value? (2 * s.length + 2) s
  if (skipBlank rest).isEmpty then some j else none

/-- How deep arrays and objects may nest in a value. -/
def maxDepth : Nat := 127

/-- **The value of a text.** -/
def ofText? (text : String) : Option Json := do
  let j ← parse? text
  if j.readable ∧ j.depth ≤ maxDepth then some j.settled else none

end TapeReader.Json
